import BundlePacker.Proofs.Archive.Contents
import BundlePacker.Proofs.FileSystem.Views

/-!
# Content that is put somewhere

Opening a path for writing and writing to it comes to one change: the file at the location to which
the path leads has the content afterwards, and if there was none it has been made.  This change can
be seen at the names of that file only, so that a path that passes by shows what it showed before.

The main statements say that the same content put somewhere twice is put there once, and that
contents put to two locations look alike in either order, if neither file has another name.
-/

namespace BundlePacker.FileSystem

variable {system first second : FileSystem} {location other : Location} {path : Path}
  {content : Content} {file : File}

/-! ## The change -/

/-- Put content to a location: into the file that stands there, or into a new one. -/
def deposit (system : FileSystem) (location : Location) (content : Content) : FileSystem :=
  match system.node? location with
  | none => system.putFile location ⟨freshMode, content⟩
  | some (.file id) => system.setContent id content
  | some _ => system

theorem deposit_of_vacant (vacant : system.node? location = none) :
    system.deposit location content = system.putFile location ⟨freshMode, content⟩ := by
  rw [deposit, vacant]

theorem deposit_of_file {id : Nat} (stands : system.node? location = some (.file id)) :
    system.deposit location content = system.setContent id content := by
  rw [deposit, stands]

theorem deposit_of_other {node : Node} (stands : system.node? location = some node)
    (noFile : ∀ id, node ≠ .file id) : system.deposit location content = system := by
  rw [deposit, stands]
  cases node with
  | file id => exact absurd rfl (noFile id)
  | directory | link _ | special _ => rfl

@[simp]
theorem workingDirectory_deposit (system : FileSystem) (location : Location) (content : Content) :
    (system.deposit location content).workingDirectory = system.workingDirectory := by
  rw [deposit]
  split <;> rfl

theorem node?_deposit (belowRoot : location ≠ []) :
    (system.deposit location content).node? other =
      if system.node? location = none ∧ location = other then some (.file system.files.length)
      else system.node? other := by
  cases stands : system.node? location with
  | none =>
      rw [deposit_of_vacant stands, node?_putFile _ _ _ _ belowRoot]
      simp
  | some node =>
      rw [if_neg (by simp), deposit, stands]
      split <;> first | rfl | simp_all

/-! ## Modes and contents -/

/-- What has been lowered can not be lowered again. -/
@[simp]
theorem lowered_lowered (mode : Mode) : lowered (lowered mode) = lowered mode := by
  have narrow : (0o3777 : Mode) &&& 0o010 = 0o010 := by decide
  have wide : (0o1777 : Mode) &&& 0o010 = 0o010 := by decide
  by_cases group : mode &&& 0o010 = 0
  · simp only [lowered, if_pos group, BitVec.and_assoc, narrow, BitVec.and_self]
  · simp only [lowered, if_neg group, BitVec.and_assoc, wide, BitVec.and_self]

/-- Who may write to a file may do so still when it has been written to. -/
@[simp]
theorem isWritable_lowered (file : File) (content : Content) :
    File.isWritable ⟨lowered file.mode, content⟩ = file.isWritable := by
  have narrow : (0o3777 : Mode) &&& 0o200 = 0o200 := by decide
  have wide : (0o1777 : Mode) &&& 0o200 = 0o200 := by decide
  simp only [File.isWritable, lowered]
  split <;> simp only [BitVec.and_assoc, narrow, wide]

theorem isWritable_fresh (content : Content) : File.isWritable ⟨freshMode, content⟩ = true := by
  simp [File.isWritable, freshMode]

theorem lowered_freshMode : lowered freshMode = freshMode := by
  decide

theorem written_freshMode (content : Content) :
    written freshMode content = ⟨freshMode, content⟩ := by
  rw [written, lowered_freshMode]
  split <;> rfl

/-- What has been seen once content is written to it. -/
def View.overwritten (content : Content) : View → View
  | .file file => .file ⟨lowered file.mode, content⟩
  | view => view

/-- What is seen where content is put, by what was seen before. -/
def deposited (content : Content) (view : Option View) : Option View :=
  some (view.elim (.file ⟨freshMode, content⟩) (View.overwritten content))

/-- Content that is put somewhere does not make a link. -/
theorem eq_link_of_deposited {view : Option View} {target : Path}
    (seen : deposited content view = some (.link target)) : view = some (.link target) := by
  cases view with
  | none => cases seen
  | some view =>
      cases view with
      | link other => exact seen
      | directory | file _ | special _ => cases seen

theorem setContent_setContent (system : FileSystem) (id : Nat) (before content : Content) :
    (system.setContent id before).setContent id content = system.setContent id content := by
  simp [setContent, List.modify_modify_eq, Function.comp_def]

/-- The same content put somewhere twice is put there once. -/
theorem deposit_deposit_self (belowRoot : location ≠ []) :
    (system.deposit location content).deposit location content =
      system.deposit location content := by
  cases stands : system.node? location with
  | none =>
      have made : (system.deposit location content).node? location =
          some (.file system.files.length) := by
        rw [node?_deposit belowRoot, if_pos ⟨stands, rfl⟩]
      rw [deposit_of_file made, deposit_of_vacant stands, setContent_putFile, lowered_freshMode]
  | some node =>
      cases node with
      | file id =>
          have kept : (system.deposit location content).node? location = some (.file id) := by
            rw [node?_deposit belowRoot, if_neg (by simp [stands]), stands]
          rw [deposit_of_file kept, deposit_of_file stands, setContent_setContent]
      | directory | link _ | special _ =>
          have unchanged : system.deposit location content = system :=
            deposit_of_other stands (by simp)
          rw [unchanged, unchanged]

/-! ## What can be seen of it -/

theorem view?_putFile (filed : system.Filed) (belowRoot : location ≠ []) :
    (system.putFile location file).view? other =
      if location = other then some (.file file) else system.view? other := by
  rw [view?, node?_putFile _ _ _ _ belowRoot]
  by_cases same : location = other
  · simp [same, file?_putFile]
  · rw [if_neg same, if_neg same, view?]
    split
    · rfl
    · rfl
    · next id stands =>
      rw [file?_putFile, if_neg (Nat.ne_of_lt (filed other id stands))]
    · rfl
    · rfl

theorem view?_setContent (system : FileSystem) (id : Nat) (content : Content)
    (other : Location) :
    (system.setContent id content).view? other =
      if system.node? other = some (.file id) then
        (system.view? other).map (View.overwritten content)
      else system.view? other := by
  simp only [view?, node?_setContent]
  cases stands : system.node? other with
  | none => simp
  | some node =>
      cases node with
      | directory | link _ | special _ => simp
      | file known =>
          simp only [file?_setContent, Option.some.injEq, Node.file.injEq]
          by_cases same : id = known
          · simp [same, Function.comp_def, View.overwritten]
          · simp [same, Ne.symm same]

/-- Two names are one file where content has been put if they were before. -/
theorem sameFile_deposit (filed : system.Filed) (belowRoot : location ≠ [])
    {one another : Location} (differs : one ≠ another) :
    (system.deposit location content).SameFile one another ↔ system.SameFile one another := by
  have new : ∀ {other}, system.node? other ≠ some (.file system.files.length) :=
    fun stands => Nat.lt_irrefl _ (filed _ _ stands)
  simp only [SameFile, node?_deposit belowRoot]
  by_cases here : system.node? location = none ∧ location = one
  · rcases here with ⟨vacant, rfl⟩
    simp [vacant, differs, new]
  · rw [if_neg here]
    by_cases there : system.node? location = none ∧ location = another
    · rcases there with ⟨vacant, rfl⟩
      rw [if_pos ⟨vacant, rfl⟩, vacant]
      simp only [Option.some.injEq, Node.file.injEq, reduceCtorEq, and_false, exists_false,
        iff_false]
      rintro ⟨id, stands, rfl⟩
      exact new stands
    · rw [if_neg there]

/-- Whether what is put to one location is seen at another: both are one name, or name one file. -/
def Touches (system : FileSystem) (location other : Location) : Prop :=
  location = other ∨ system.SameFile location other

/-- Whether the file at a location, if there is one, has no other name. -/
def Sole (system : FileSystem) (location : Location) : Prop :=
  ∀ other, system.SameFile location other → location = other

theorem Sole.eq_of_touches (sole : system.Sole location) (touches : system.Touches location other) :
    location = other :=
  touches.elim id (sole other)

theorem Sole.not_touches (sole : system.Sole location) (differs : location ≠ other) :
    ¬ system.Touches location other :=
  fun touches => differs (sole.eq_of_touches touches)

/-- All names of a file stand below the root, so that they can be looked through. -/
theorem sole_of_below (only : ∀ pair ∈ system.below [],
    system.node? location = some pair.2 → location = pair.1) : system.Sole location := by
  rintro other ⟨id, stands, standsOther⟩
  have belowRoot : other ≠ [] := by
    rintro rfl
    simp at standsOther
  exact only _ (mem_below_iff.mpr ⟨standsOther, List.nil_prefix, belowRoot⟩) stands

theorem Sole.cut {top : Location} (sole : system.Sole location) (belowTop : top ≠ []) :
    (system.cut top).Sole location :=
  fun other same => sole other ((sameFile_cut belowTop).mp same).2

theorem SameFile.of_common {third : Location} (one : system.SameFile location third)
    (another : system.SameFile other third) : system.SameFile location other := by
  rcases one with ⟨id, standsOne, stands⟩
  rcases another with ⟨_, standsAnother, same⟩
  rw [stands] at same
  cases same
  exact ⟨id, standsOne, standsAnother⟩

theorem SameFile.symm (same : system.SameFile location other) : system.SameFile other location := by
  rcases same with ⟨id, stands, standsOther⟩
  exact ⟨id, standsOther, stands⟩

/-- No location is touched from two locations that do not touch each other. -/
theorem Touches.of_common {third : Location} (one : system.Touches location third)
    (another : system.Touches other third) : system.Touches location other := by
  rcases one with rfl | sameOne
  · exact another.imp Eq.symm SameFile.symm
  · rcases another with rfl | sameAnother
    · exact .inr sameOne
    · exact .inr (sameOne.of_common sameAnother)

section

variable (filed : system.Filed) (belowRoot : location ≠ [])

include filed belowRoot

theorem view?_deposit_of_touches (touches : system.Touches location other) :
    (system.deposit location content).view? other = deposited content (system.view? other) := by
  cases stands : system.node? location with
  | none =>
      have same : location = other := by
        apply touches.resolve_right
        rintro ⟨id, missing, -⟩
        rw [stands] at missing
        cases missing
      rw [deposit_of_vacant stands, view?_putFile filed belowRoot, if_pos same, ← same,
        filed.view?_eq_none_iff.mpr stands]
      rfl
  | some node =>
      cases node with
      | file id =>
          have named : system.node? other = some (.file id) := by
            rcases touches with rfl | ⟨known, here, there⟩
            · exact stands
            · rw [stands] at here
              cases here
              exact there
          rcases filed.exists_file named with ⟨file, held⟩
          rw [deposit_of_file stands, view?_setContent, if_pos named,
            view?_eq_file_iff.mpr ⟨id, named, held⟩]
          rfl
      | directory | link _ | special _ =>
          have same : location = other := by
            apply touches.resolve_right
            rintro ⟨id, isFile, -⟩
            rw [stands] at isFile
            cases isFile
          rw [deposit_of_other stands (by simp), ← same, view?, stands]
          rfl

theorem view?_deposit_of_apart (apart : ¬ system.Touches location other) :
    (system.deposit location content).view? other = system.view? other := by
  cases stands : system.node? location with
  | none =>
      rw [deposit_of_vacant stands, view?_putFile filed belowRoot,
        if_neg fun same => apart (.inl same)]
  | some node =>
      cases node with
      | file id =>
          rw [deposit_of_file stands, view?_setContent,
            if_neg fun named => apart (.inr ⟨id, stands, named⟩)]
      | directory | link _ | special _ =>
          rw [deposit_of_other stands (by simp)]

theorem Filed.deposit : (system.deposit location content).Filed := by
  intro other id stands
  have grown : system.files.length ≤ (system.deposit location content).files.length := by
    rw [FileSystem.deposit]
    split <;> simp [FileSystem.putFile, put, addFile, setContent]
  by_cases vacant : system.node? location = none
  · rw [deposit_of_vacant vacant] at stands ⊢
    have more : (system.putFile location ⟨freshMode, content⟩).files.length =
        system.files.length + 1 := by
      simp [FileSystem.putFile, put, addFile]
    rw [node?_putFile _ _ _ _ belowRoot] at stands
    split at stands
    · cases stands
      omega
    · have known := filed other id stands
      omega
  · rw [node?_deposit belowRoot, if_neg fun both => vacant both.1] at stands
    exact Nat.lt_of_lt_of_le (filed other id stands) grown

/-- Where content is put does not change what touches what. -/
theorem touches_deposit {one another : Location} :
    (system.deposit location content).Touches one another ↔ system.Touches one another := by
  by_cases same : one = another
  · exact iff_of_true (.inl same) (.inl same)
  · exact or_congr Iff.rfl (sameFile_deposit filed belowRoot same)

end

/-- What looks alike looks alike still when the same content is put to the same location. -/
theorem Alike.deposit (alike : Alike first second) (filed : first.Filed)
    (filedSecond : second.Filed) (belowRoot : location ≠ []) :
    Alike (first.deposit location content) (second.deposit location content) := by
  have touching : ∀ other, first.Touches location other ↔ second.Touches location other :=
    fun other => or_congr Iff.rfl (alike.names location other)
  refine alike_of_views (filed.deposit belowRoot) (filedSecond.deposit belowRoot) ?_ ?_ ?_
  · intro other
    by_cases touches : first.Touches location other
    · rw [view?_deposit_of_touches filed belowRoot touches,
        view?_deposit_of_touches filedSecond belowRoot ((touching other).mp touches),
        alike.views]
    · rw [view?_deposit_of_apart filed belowRoot touches,
        view?_deposit_of_apart filedSecond belowRoot (mt (touching other).mpr touches),
        alike.views]
  · intro one another differs
    rw [sameFile_deposit filed belowRoot differs, sameFile_deposit filedSecond belowRoot differs]
    exact alike.names one another
  · rw [workingDirectory_deposit, workingDirectory_deposit, alike.places]

/-- Contents that are put to two locations which do not touch look alike in either order. -/
theorem deposit_comm {later : Content} (filed : system.Filed) (belowRoot : location ≠ [])
    (belowRootOther : other ≠ []) (apart : ¬ system.Touches location other) :
    Alike ((system.deposit location content).deposit other later)
      ((system.deposit other later).deposit location content) := by
  have filedOne : (system.deposit location content).Filed := filed.deposit belowRoot
  have filedOther : (system.deposit other later).Filed := filed.deposit belowRootOther
  have touchesOne : ∀ {one another},
      (system.deposit location content).Touches one another ↔ system.Touches one another :=
    touches_deposit filed belowRoot
  have touchesOther : ∀ {one another},
      (system.deposit other later).Touches one another ↔ system.Touches one another :=
    touches_deposit filed belowRootOther
  refine alike_of_views (filedOne.deposit belowRootOther) (filedOther.deposit belowRoot) ?_ ?_ ?_
  · intro entry
    by_cases here : system.Touches location entry
    · have notThere : ¬ system.Touches other entry := fun there => apart (here.of_common there)
      rw [view?_deposit_of_apart filedOne belowRootOther (mt touchesOne.mp notThere),
        view?_deposit_of_touches filed belowRoot here,
        view?_deposit_of_touches filedOther belowRoot (touchesOther.mpr here),
        view?_deposit_of_apart filed belowRootOther notThere]
    · rw [view?_deposit_of_apart filedOther belowRoot (mt touchesOther.mp here)]
      by_cases there : system.Touches other entry
      · rw [view?_deposit_of_touches filedOne belowRootOther (touchesOne.mpr there),
          view?_deposit_of_apart filed belowRoot here,
          view?_deposit_of_touches filed belowRootOther there]
      · rw [view?_deposit_of_apart filedOne belowRootOther (mt touchesOne.mp there),
          view?_deposit_of_apart filed belowRoot here,
          view?_deposit_of_apart filed belowRootOther there]
  · intro one another differs
    rw [sameFile_deposit filedOne belowRootOther differs, sameFile_deposit filed belowRoot differs,
      sameFile_deposit filedOther belowRoot differs, sameFile_deposit filed belowRootOther differs]
  · simp only [workingDirectory_deposit]

/-- Content that is put outside a tree is put there whether or not the tree is taken away. -/
theorem cut_deposit {top : Location} (belowTop : top ≠ []) (outside : ¬ top <+: location) :
    (system.deposit location content).cut top = (system.cut top).deposit location content := by
  have same : (system.cut top).node? location = system.node? location := by
    rw [node?_cut _ _ _ belowTop, if_neg outside]
  cases stands : system.node? location with
  | none =>
      rw [deposit_of_vacant stands, deposit_of_vacant (same.trans stands)]
      simp only [FileSystem.cut, putFile, put, addFile, mk.injEq, and_true]
      apply Std.ExtTreeMap.ext_getElem?
      intro other
      simp only [Std.ExtTreeMap.getElem?_filter', Std.ExtTreeMap.getElem?_insert]
      by_cases here : location = other
      · subst here
        simp [outside]
      · simp [here]
  | some node =>
      cases node with
      | file id =>
          rw [deposit_of_file stands, deposit_of_file (same.trans stands)]
          rfl
      | directory | link _ | special _ =>
          rw [deposit_of_other stands (by simp), deposit_of_other (same.trans stands) (by simp)]

/-- A path that passes by a location shows what it showed before content was put there. -/
theorem changedAt_deposit (wellFormed : system.WellFormed) (belowRoot : location ≠ [])
    (sole : system.Sole location) (content : Content) :
    ChangedAt location id system (system.deposit location content) where
  moves := moves_id belowRoot
  places := workingDirectory_deposit ..
  nodes other outside := by
    rw [node?_deposit belowRoot, if_neg]
    rintro ⟨-, rfl⟩
    exact outside List.prefix_rfl
  views other outside := by
    refine view?_deposit_of_apart wellFormed.filed belowRoot (sole.not_touches ?_)
    rintro rfl
    exact outside List.prefix_rfl
  directories place directory := by
    cases place with
    | removed between above =>
        rfl
    | live here =>
        rw [id, nodeAt?_live, node?_deposit belowRoot, if_neg]
        · exact directory
        · rintro ⟨vacant, rfl⟩
          rw [nodeAt?_live, vacant] at directory
          cases directory

/-! ## Opening and writing -/

/-- What is written to what has been opened is put to the location to which the path leads. -/
theorem Opens.exists_deposit (wellFormed : system.WellFormed) {handle : Handle}
    {opened : FileSystem} (opens : Opens system path (.ok handle opened)) (content : Content) :
    ∃ spot location, system.resolve .creation path = .ok spot ∧ spot.place = .live location ∧
      stateAfter (write handle content) opened = system.deposit location content := by
  cases opens with
  | @made directory name ends =>
      rcases resolve_holds wellFormed ends with ⟨-, vacant, -⟩
      refine ⟨_, _, ends, rfl, ?_⟩
      rw [deposit_of_vacant vacant, stateAfter, write_putFile, written_freshMode]
  | @emptied location id ends stands =>
      refine ⟨_, location, ends, rfl, ?_⟩
      rw [deposit_of_file stands]
      by_cases empty : content = .plain []
      · subst empty
        rfl
      · have writes : write (.file id) content =
            Call.alter fun system' => .ok (system'.setContent id content) := by
          rw [write]
          rintro rfl
          exact empty rfl
        rw [writes, ← setContent_setContent system id (.plain []) content]
        rfl
  | swallowed ends stands =>
      refine ⟨_, _, ends, rfl, ?_⟩
      rw [deposit_of_other stands (by simp)]
      rfl

/-- Why what is seen can not be opened for writing, if it can not. -/
def denial : Option View → Option Fault
  | none | some (.special .device) => none
  | some (.file file) => if file.isWritable then none else some (.refused .accessDenied)
  | some (.special .socket) => some (.refused .noDevice)
  | some _ => some (.refused .isDirectory)

/-- Where a path leads to a location, what is seen there decides whether it can be opened. -/
theorem openToWrite_cases (wellFormed : system.WellFormed) {spot : Spot}
    (ends : system.resolve .creation path = .ok spot) (there : spot.place = .live location) :
    (denial (system.view? location) = none ∧
        ∃ handle opened, openToWrite path system = .ok handle opened) ∨
      ∃ cause, denial (system.view? location) = some cause ∧
        openToWrite path system = .error cause system := by
  cases spot with
  | vacant directory name =>
      cases there
      rcases resolve_holds wellFormed ends with ⟨-, vacant, -⟩
      rw [wellFormed.filed.view?_eq_none_iff.mpr vacant]
      exact .inl ⟨rfl, _, _, openToWrite_of_vacant ends⟩
  | occupied place =>
      cases there
      rcases resolve_holds wellFormed ends with ⟨node, found, -⟩
      have stands : system.node? location = some node := found
      simp only [openToWrite, ends, view?, nodeAt?_live, stands]
      cases node with
      | directory =>
          exact .inr ⟨_, rfl, rfl⟩
      | link target =>
          exact .inr ⟨_, rfl, rfl⟩
      | special special =>
          cases special with
          | socket => exact .inr ⟨_, rfl, rfl⟩
          | device => exact .inl ⟨rfl, _, _, rfl⟩
      | file id =>
          rcases wellFormed.filed.exists_file stands with ⟨file, held⟩
          by_cases writable : file.isWritable
          · exact .inl ⟨by simp [held, denial, writable], by simp [held, writable]⟩
          · refine .inr ⟨.refused .accessDenied, ?_, ?_⟩
            · simp [held, denial, writable]
            · simp [held, writable]

/-- What could be opened for writing can be opened again once it has been written to. -/
theorem denial_deposited {view : Option View} (admits : denial view = none) :
    denial (deposited content view) = none := by
  cases view with
  | none =>
      simp [deposited, denial, isWritable_fresh]
  | some view =>
      cases view with
      | file file =>
          simpa [deposited, View.overwritten, denial] using admits
      | directory | link _ | special _ =>
          exact admits

end BundlePacker.FileSystem
