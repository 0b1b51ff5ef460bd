import Mathlib.Data.List.Forall2
import BundlePacker.Proofs.Archive.Gathering
import BundlePacker.Proofs.FileSystem.Directories
import BundlePacker.Proofs.Job

/-!
# What an archive holds

The entries of an archive are the regular files of the tree, one for each, in the order in which a
walk finds them.  Whether there is an archive at all depends on two things only: that the output can
be opened, and that every file is called by text and may be read.

The output is opened before the tree is looked at, so it matters that it lies outside the tree.  The
main statement is about every output of that kind: a new file, an old one whatever its content was,
or a device.
-/

namespace BundlePacker

open FileSystem
open BundlePacker.Path (joinSegments)

namespace FileSystem

variable {system : FileSystem}

/-- Whether a regular file stands strictly below a place, by the names that lead there. -/
def FileBelow (system : FileSystem) (place : Place) (names : List Name) (file : File) : Prop :=
  ∃ id, (names, id) ∈ system.filesBelow place ∧ system.file? id = some file

/-- Whether opening a path for writing touches a file of the tree at a place, or adds one to it. -/
def WritesInto (system : FileSystem) (place : Place) (path : Path) : Prop :=
  (∃ top directory name, place = .live top ∧
      system.resolve .creation path = .ok (.vacant directory name) ∧
      top <+: directory ++ [name]) ∨
    ∃ location id names, system.resolve .creation path = .ok (.occupied (.live location)) ∧
      system.node? location = some (.file id) ∧ (names, id) ∈ system.filesBelow place

/-- Whether a path leads to a device. -/
def IsDevice (system : FileSystem) (path : Path) : Prop :=
  ∃ location, system.resolve .creation path = .ok (.occupied (.live location)) ∧
    system.node? location = some (.special .device)

theorem contentOf_of_locate {path : Path} {place : Place} {id : Nat} {file : File}
    (found : system.locate path = .ok place) (stands : system.nodeAt? place = some (.file id))
    (content : system.file? id = some file) : system.contentOf path = .ok file.content := by
  simp [contentOf, sourceAt, Bind.bind, Except.bind, found, stands, content]

theorem file?_of_mem_filesBelow (wellFormed : system.WellFormed) {place : Place}
    {names : List Name} {id : Nat} (member : (names, id) ∈ system.filesBelow place) :
    id < system.files.length ∧ ∃ file, system.file? id = some file := by
  rcases mem_filesBelow.mp member with ⟨-, top, -, stands⟩
  rw [← nodeAt?_live] at stands
  exact wellFormed.file?_of_nodeAt? stands

theorem isSegment_of_mem_filesBelow (wellFormed : system.WellFormed) {place : Place}
    {names : List Name} {id : Nat} (member : (names, id) ∈ system.filesBelow place) :
    ∀ name ∈ names, IsSegment name := by
  rcases mem_filesBelow.mp member with ⟨-, top, -, stands⟩
  have entry : system.node? (top ++ names) ≠ none := by simp [stands]
  intro name inside
  exact wellFormed.isSegment_of_mem entry name (List.mem_append_right _ inside)

/-! ## Opening a file outside a tree -/

/-- Whether a file system has come from another one by a change outside the tree at a place. -/
structure ChangedOutside (place : Place) (before after : FileSystem) : Prop where
  keeps : ∀ location node, before.node? location = some node →
    after.node? location = some node
  places : after.workingDirectory = before.workingDirectory
  nodes : ∀ top inner, place = .live top → top <+: inner →
    after.node? inner = before.node? inner
  contents : ∀ names id, (names, id) ∈ before.filesBelow place → after.file? id = before.file? id

theorem ChangedOutside.filesBelow {place : Place} {before after : FileSystem}
    (changed : ChangedOutside place before after) :
    after.filesBelow place = before.filesBelow place :=
  filesBelow_congr changed.nodes

theorem ChangedOutside.locate {place found : Place} {before after : FileSystem}
    (changed : ChangedOutside place before after) {path : Path}
    (leads : before.locate path = .ok found) : after.locate path = .ok found := by
  have ends := locate_eq_ok_iff.mp leads
  have filled : ∀ directory name, Spot.occupied found = .vacant directory name →
      Purpose.target = .creation ∧
        ∃ id, after.node? (directory ++ [name]) = some (.file id) := by
    intro directory name impossible
    cases impossible
  exact locate_of_resolve changed.keeps changed.places (by simp) filled ends

theorem ChangedOutside.withinLimits {place : Place} {before after : FileSystem} {root : Path}
    (changed : ChangedOutside place before after) (short : before.WithinLimits root place) :
    after.WithinLimits root place := by
  intro top names same stands
  rw [changed.nodes top _ same (List.prefix_append ..)] at stands
  exact short top names same stands

theorem keeps_putFile {directory : Location} {name : Name} {file : File}
    (vacant : system.node? (directory ++ [name]) = none) :
    ∀ location node, system.node? location = some node →
      (system.putFile (directory ++ [name]) file).node? location = some node := by
  intro location node stands
  rw [node?_putFile _ _ _ _ (by simp), if_neg, stands]
  rintro rfl
  rw [vacant] at stands
  cases stands

theorem Opens.keeps (wellFormed : system.WellFormed) {path : Path} {handle : Handle}
    {opened : FileSystem} (opens : Opens system path (.ok handle opened)) :
    ∀ location node, system.node? location = some node →
      opened.node? location = some node := by
  cases opens with
  | made ends =>
      rcases resolve_holds wellFormed ends with ⟨-, vacant, -⟩
      exact keeps_putFile vacant
  | emptied ends stands =>
      exact fun _ _ found => found
  | swallowed ends stands =>
      exact fun _ _ found => found

/-- What is opened for writing is no directory. -/
theorem Opens.exists_spot (wellFormed : system.WellFormed) {path : Path} {handle : Handle}
    {opened : FileSystem} (opens : Opens system path (.ok handle opened)) :
    ∃ spot, system.resolve .creation path = .ok spot ∧
      system.nodeAt? spot.place ≠ some .directory := by
  cases opens with
  | made ends =>
      rcases resolve_holds wellFormed ends with ⟨-, vacant, -⟩
      exact ⟨_, ends, by simp [Spot.place, vacant]⟩
  | emptied ends stands | swallowed ends stands =>
      exact ⟨_, ends, by simp [Spot.place, stands]⟩

theorem Opens.workingDirectory {path : Path} {handle : Handle} {opened : FileSystem}
    (opens : Opens system path (.ok handle opened)) :
    opened.workingDirectory = system.workingDirectory := by
  cases opens <;> rfl

theorem Opens.wellFormed (wellFormed : system.WellFormed) {path : Path} {handle : Handle}
    {opened : FileSystem} (opens : Opens system path (.ok handle opened)) : opened.WellFormed := by
  cases opens with
  | made ends =>
      rcases resolve_holds wellFormed ends with ⟨stands, vacant, isName⟩
      exact wellFormed.putFile stands vacant isName _
  | emptied ends stands =>
      exact wellFormed.setContent _ _
  | swallowed ends stands =>
      exact wellFormed

/-- Whether a file system has come from another one by opening something outside a tree. -/
structure OpenedOutside (place : Place) (before : FileSystem) (handle : Handle)
    (after : FileSystem) : Prop extends ChangedOutside place before after where
  wellFormed : after.WellFormed
  apart : ∀ names id, (names, id) ∈ before.filesBelow place → handle ≠ .file id

/-- What is opened outside a tree leaves the tree as it is. -/
theorem changedOutside_of_opens (wellFormed : system.WellFormed) {place : Place} {path : Path}
    (outside : ¬ system.WritesInto place path) {handle : Handle} {opened : FileSystem}
    (opens : Opens system path (.ok handle opened)) : ChangedOutside place system opened := by
  refine ⟨opens.keeps wellFormed, opens.workingDirectory, ?_, ?_⟩
  · intro top inner same inside
    cases opens with
    | made ends =>
        rw [node?_putFile _ _ _ _ (by simp), if_neg]
        rintro rfl
        exact outside (.inl ⟨top, _, _, same, ends, inside⟩)
    | emptied ends stands =>
        rfl
    | swallowed ends stands =>
        rfl
  · intro names id member
    cases opens with
    | made ends =>
        have known := (file?_of_mem_filesBelow wellFormed member).1
        rw [file?_putFile, if_neg (Nat.ne_of_lt known)]
    | emptied ends stands =>
        rw [file?_setContent, if_neg]
        rintro rfl
        exact outside (.inr ⟨_, _, names, ends, stands, member⟩)
    | swallowed ends stands =>
        rfl

theorem openedOutside_of_opens (wellFormed : system.WellFormed) {place : Place} {path : Path}
    (outside : ¬ system.WritesInto place path) {handle : Handle} {opened : FileSystem}
    (opens : Opens system path (.ok handle opened)) :
    OpenedOutside place system handle opened where
  toChangedOutside := changedOutside_of_opens wellFormed outside opens
  wellFormed := opens.wellFormed wellFormed
  apart := by
    intro names id member
    cases opens with
    | made ends =>
        rintro ⟨⟩
        exact absurd (file?_of_mem_filesBelow wellFormed member).1 (Nat.lt_irrefl _)
    | emptied ends stands =>
        rintro ⟨⟩
        exact outside (.inr ⟨_, _, names, ends, stands, member⟩)
    | swallowed ends stands =>
        rintro ⟨⟩

/-! ## Writing to what has been opened -/

/-- Writing changes files and not the tree. -/
theorem tree_write (handle : Handle) (entries : List Archive.Entry) (system : FileSystem) :
    (stateAfter (write handle (.archive entries)) system).nodes = system.nodes ∧
      (stateAfter (write handle (.archive entries)) system).workingDirectory =
        system.workingDirectory := by
  cases handle <;> exact ⟨rfl, rfl⟩

theorem node?_write (handle : Handle) (entries : List Archive.Entry) (system : FileSystem)
    (location : Location) :
    (stateAfter (write handle (.archive entries)) system).node? location =
      system.node? location := by
  rw [node?, node?, (tree_write handle entries system).1]

theorem wellFormed_write {handle : Handle} {content : Content} (wellFormed : system.WellFormed) :
    (stateAfter (write handle content) system).WellFormed :=
  keeps_write handle content system wellFormed

/-- What is written to what has been opened changes no other file. -/
theorem Opens.file?_write {path : Path} {handle : Handle} {opened : FileSystem}
    (opens : Opens system path (.ok handle opened)) {id : Nat} (known : id < system.files.length)
    (other : handle ≠ .file id) (entries : List Archive.Entry) :
    (stateAfter (write handle (.archive entries)) opened).file? id = system.file? id := by
  cases opens with
  | made ends =>
      rw [stateAfter, write_putFile]
      exact (file?_putFile ..).trans (if_neg (Nat.ne_of_lt known))
  | @emptied location written ends stands =>
      have differs : written ≠ id := by
        rintro rfl
        exact other rfl
      show ((system.setContent written (.plain [])).setContent written
        (.archive entries)).file? id = _
      rw [file?_setContent, if_neg differs, file?_setContent, if_neg differs]
  | swallowed ends stands =>
      rfl

/-- What has been opened, unless it is a device, is a file that holds what is written to it. -/
theorem Opens.holds (wellFormed : system.WellFormed) {path : Path} {handle : Handle}
    {opened : FileSystem} (opens : Opens system path (.ok handle opened))
    (kept : ¬ system.IsDevice path) (entries : List Archive.Entry) :
    ∃ spot location id file, system.resolve .creation path = .ok spot ∧
      spot.place = .live location ∧ opened.node? location = some (.file id) ∧
      (stateAfter (write handle (.archive entries)) opened).file? id = some file ∧
      file.content = .archive entries := by
  cases opens with
  | made ends =>
      rename_i directory name
      refine ⟨_, _, system.files.length, _, ends, rfl, ?_, ?_, content_written freshMode _⟩
      · rw [node?_putFile _ _ _ _ (by simp), if_pos rfl]
      · rw [stateAfter, write_putFile]
        exact (file?_putFile ..).trans (if_pos rfl)
  | emptied ends stands =>
      rename_i location id
      have seen : system.nodeAt? (.live location) = some (.file id) := stands
      rcases wellFormed.file?_of_nodeAt? seen with ⟨-, file, content⟩
      refine ⟨_, location, id, ⟨lowered (lowered file.mode), .archive entries⟩, ends, rfl, stands,
        ?_, rfl⟩
      show ((system.setContent id (.plain [])).setContent id (.archive entries)).file? id = _
      simp [file?_setContent, content]
  | swallowed ends stands =>
      exact absurd ⟨_, ends, stands⟩ kept

/-- A file that has been made or opened for a path is found at the path. -/
theorem contentOf_of_resolve {first last : FileSystem} {path : Path} {spot : Spot}
    {location : Location} {id : Nat} {file : File}
    (ends : first.resolve .creation path = .ok spot) (there : spot.place = .live location)
    (keeps : ∀ other node, first.node? other = some node → last.node? other = some node)
    (places : last.workingDirectory = first.workingDirectory)
    (stands : last.node? location = some (.file id)) (content : last.file? id = some file) :
    last.contentOf path = .ok file.content := by
  have found : last.locate path = .ok spot.place := by
    refine locate_of_resolve keeps places (by simp) ?_ ends
    rintro directory name rfl
    cases there
    exact ⟨rfl, id, stands⟩
  rw [there] at found
  exact contentOf_of_locate found stands content

theorem contentOf_of_opens (wellFormed : system.WellFormed) {path : Path} {handle : Handle}
    {opened : FileSystem} (opens : Opens system path (.ok handle opened))
    (kept : ¬ system.IsDevice path) (entries : List Archive.Entry) :
    (stateAfter (write handle (.archive entries)) opened).contentOf path =
      .ok (.archive entries) := by
  rcases opens.holds wellFormed kept entries with
    ⟨spot, location, id, file, ends, there, stands, content, same⟩
  have keeps : ∀ other node, system.node? other = some node →
      (stateAfter (write handle (.archive entries)) opened).node? other = some node := by
    intro other node found
    rw [node?_write]
    exact opens.keeps wellFormed other node found
  have places := (tree_write handle entries opened).2.trans opens.workingDirectory
  have held := contentOf_of_resolve ends there keeps places ((node?_write ..).trans stands) content
  rwa [same] at held

end FileSystem

namespace Archive

open Job (call_of_ok call_of_error exists_attempt_eq_ok onDisk_of_ok orElseDo_of_ok
  regardless_of_ok run_noteAll)

/-- Whether an entry is that of a file which some names lead to. -/
structure Describes (names : List Name) (file : File) (entry : Entry) : Prop where
  name : Utf8.ofString entry.name = joinSegments names
  data : entry.data = file.content.bytes
  permissions : entry.permissions = file.mode.setWidth 9
  method : entry.method = .deflate
  modified : entry.modified = .epoch

variable {disk : FileSystem} {root : Path}

theorem file?_reading {handle : Handle} {id : Nat} (apart : handle ≠ .file id)
    (done : List Entry) (next : Entry) :
    (reading disk handle done next).file? id = disk.file? id := by
  cases handle with
  | sink =>
      rfl
  | file other =>
      have differs : other ≠ id := fun same => apart (congrArg Handle.file same)
      rw [reading]
      cases Format.beginning done next with
      | nil => rfl
      | cons byte later => exact (file?_setContent ..).trans (if_neg differs)

/--
A file in a tree is added when its relative path is text and its owner may read it, and the entry is
its own, whatever is done before.
-/
theorem adds_iff (nonempty : root.bytes ≠ []) {names : List Name}
    (pieces : ∀ name ∈ names, IsSegment name) {id : Nat} {file : File}
    (short : (pathBelow root names).bytes.length < pathLimit)
    (content : disk.file? id = some file) {handle : Handle} (apart : handle ≠ .file id)
    {done : List Entry} {entry : Entry} :
    Adds disk handle root done (pathBelow root names) id entry ↔
      file.isReadable = true ∧ Describes names file entry := by
  have held : ∀ bare, (reading disk handle done bare).readFile id =
      if file.isReadable then .ok file.content.bytes else .error (.refused .accessDenied) := by
    intro bare
    rw [readFile, file?_reading apart, content]
  constructor
  · rintro ⟨headed, reads⟩
    rcases heading_eq_ok_iff.mp headed with ⟨name, same, called, -, known, rfl⟩
    cases content.symm.trans known
    rw [held] at reads
    split at reads
    · next readable =>
      cases reads
      exact ⟨readable, text_of_entryName nonempty pieces called, rfl, rfl, rfl, rfl⟩
    · cases reads
  · rintro ⟨readable, called, data, permissions, method, modified⟩
    have named := entryName_of_text nonempty pieces called
    have headed : heading disk root .epoch (pathBelow root names) id =
        .ok ⟨entry.name, [], file.mode.setWidth 9, .deflate, .epoch⟩ :=
      heading_eq_ok_iff.mpr ⟨_, file, named, short, content, rfl⟩
    have adds : Adds disk handle root done (pathBelow root names) id _ :=
      .intro headed ((held _).trans (if_pos readable))
    cases entry
    simp_all

theorem exists_describes_iff {names : List Name} {file : File} :
    (∃ entry, Describes names file entry) ↔ IsText (joinSegments names) := by
  constructor
  · rintro ⟨entry, describes⟩
    exact ⟨entry.name, describes.name⟩
  · rintro ⟨text, encodes⟩
    exact ⟨⟨text, _, _, .deflate, .epoch⟩, encodes, rfl, rfl, rfl, rfl⟩

/-- What a walk in the tree at a place comes upon, with the paths that a root gives the files. -/
abbrev foundFiles (root : Path) (files : List (List Name × Nat)) : List Found :=
  files.map fun pair => .file (pathBelow root pair.1) pair.2

/--
Everything is gathered exactly when each file is added, as long as what is done before makes no
difference to that.
-/
theorem Gathers.complete_iff {handle : Handle} {done : List Entry}
    {files : List (List Name × Nat)} {gathered : Gathered}
    (gathers : Gathers disk handle root done (foundFiles root files) gathered)
    {describes : List Name × Nat → Entry → Prop}
    (each : ∀ pair ∈ files, ∀ done entry,
      Adds disk handle root done (pathBelow root pair.1) pair.2 entry ↔ describes pair entry)
    {entries : List Entry} :
    (gathered.entries = entries ∧ gathered.failure = none) ↔
      List.Forall₂ describes files entries := by
  generalize same : foundFiles root files = found at gathers
  induction gathers generalizing files entries with
  | nothing _ =>
      cases List.map_eq_nil_iff.mp same
      simp [eq_comm]
  | tooDeep _ _ _ =>
      rcases List.map_eq_cons_iff.mp same with ⟨_, _, _, impossible, _⟩
      cases impossible
  | unnamed unnamed =>
      rcases List.map_eq_cons_iff.mp same with ⟨pair, others, rfl, ⟨⟩, -⟩
      simp only [reduceCtorEq, and_false, false_iff]
      rintro ⟨⟩
      rename_i described _
      rcases (each pair (List.mem_cons_self ..) [] _).mpr described with ⟨headed, -⟩
      cases unnamed.symm.trans headed
  | @unread done _ _ _ _ _ headed unread =>
      rcases List.map_eq_cons_iff.mp same with ⟨pair, others, rfl, ⟨⟩, -⟩
      simp only [reduceCtorEq, and_false, false_iff]
      rintro ⟨⟩
      rename_i described _
      rcases (each pair (List.mem_cons_self ..) done _).mpr described with ⟨otherHeaded, reads⟩
      cases headed.symm.trans otherHeaded
      cases unread.symm.trans reads
  | @added done _ _ _ entry later adds _ hypothesis =>
      rcases List.map_eq_cons_iff.mp same with ⟨pair, others, rfl, ⟨⟩, rest⟩
      have first := fun other => (each pair (List.mem_cons_self ..) done other)
      have described := (first entry).mp adds
      have only : ∀ other, describes pair other → other = entry := fun other also =>
        adds.unique ((first other).mpr also)
      have rests := @hypothesis others fun pair member => each pair (List.mem_cons_of_mem _ member)
      cases entries with
      | nil =>
          simp
      | cons other others =>
          rw [List.forall₂_cons, ← rests rest]
          constructor
          · rintro ⟨⟨⟩, complete⟩
            exact ⟨described, rfl, complete⟩
          · rintro ⟨also, rfl, complete⟩
            rw [only other also]
            exact ⟨rfl, complete⟩

/-! ## Making an archive -/

variable {session : Session} {source output : Path}

theorem create_of_refused {fault : Fault} {next : FileSystem}
    (refused : openToWrite output session.disk = .error fault next) :
    create source output session = .error (.io fault) ⟨next, session.log⟩ :=
  run_bind_of_error (call_of_error refused)

/-- The disk once what has been gathered is written to the archive that has been opened. -/
abbrev archived (opened : FileSystem) (handle : Handle) (source : Path) : FileSystem :=
  stateAfter (write handle (.archive (gatherTree opened handle source).entries)) opened

theorem finish_eq (handle : Handle) (entries : List Entry) (session : Session) :
    finish handle entries session =
      .ok () ⟨stateAfter (write handle (.archive entries)) session.disk, session.log⟩ :=
  onDisk_of_ok (write_eq ..)

/-- Once the output is open what has been gathered is told of and written to it. -/
theorem create_eq_of_opened (source : Path) {handle : Handle} {opened : FileSystem}
    (opens : openToWrite output session.disk = .ok handle opened) :
    create source output session =
      (match (gatherTree opened handle source).failure with
      | none => pure ((gatherTree opened handle source).entries.map (·.name))
      | some fault => do
        discard output
        throw fault : Job (List String))
        ⟨archived opened handle source,
          session.log ++ (gatherTree opened handle source).events⟩ := by
  rw [create, run_bind_of_ok (call_of_ok opens)]
  rw [run_bind_of_ok (run_get _), run_bind_of_ok (run_noteAll ..)]
  cases (gatherTree opened handle source).failure with
  | none =>
      exact run_bind_of_ok (orElseDo_of_ok (finish_eq ..))
  | some fault =>
      exact run_bind_of_ok (regardless_of_ok (finish_eq ..))

theorem create_of_complete (source : Path) {handle : Handle} {opened : FileSystem}
    (opens : openToWrite output session.disk = .ok handle opened)
    (complete : (gatherTree opened handle source).failure = none) :
    ∃ log, create source output session =
      .ok ((gatherTree opened handle source).entries.map (·.name))
        ⟨archived opened handle source, log⟩ := by
  have made := create_eq_of_opened source opens
  rw [complete] at made
  exact ⟨_, made⟩

/-- What can not be added to the archive makes the whole of it fail. -/
theorem create_of_incomplete (source : Path) {handle : Handle} {opened : FileSystem}
    (opens : openToWrite output session.disk = .ok handle opened) {fault : Error}
    (incomplete : (gatherTree opened handle source).failure = some fault) :
    ∃ log, create source output session =
      .error fault
        ⟨stateAfter (removeFile output) (archived opened handle source), log⟩ := by
  have made := create_eq_of_opened source opens
  rw [incomplete] at made
  rcases exists_attempt_eq_ok (.archiveLeft output) (removeFile output)
    ⟨archived opened handle source, session.log ++ (gatherTree opened handle source).events⟩ with
    ⟨log, discarded⟩
  exact ⟨log, made.trans (run_bind_of_ok discarded)⟩

/-- A run is refused its output, or it archives all of the tree, or it discards its output. -/
theorem create_cases (source output : Path) (session : Session) :
    (∃ cause, openToWrite output session.disk = .error cause session.disk ∧
        create source output session = .error (.io cause) session) ∨
      ∃ handle opened log, openToWrite output session.disk = .ok handle opened ∧
        ((gatherTree opened handle source).failure = none ∧
            create source output session =
              .ok ((gatherTree opened handle source).entries.map (·.name))
                ⟨archived opened handle source, log⟩ ∨
          ∃ fault, (gatherTree opened handle source).failure = some fault ∧
            create source output session =
              .error fault
                ⟨stateAfter (removeFile output) (archived opened handle source), log⟩) := by
  have opens := opens_openToWrite session.disk output
  cases ran : openToWrite output session.disk with
  | error cause next =>
      rw [ran] at opens
      cases opens
      exact .inl ⟨cause, rfl, create_of_refused ran⟩
  | ok handle opened =>
      right
      cases failure : (gatherTree opened handle source).failure with
      | none =>
          rcases create_of_complete source ran failure with ⟨log, made⟩
          exact ⟨handle, opened, log, rfl, .inl ⟨failure, made⟩⟩
      | some fault =>
          rcases create_of_incomplete source ran failure with ⟨log, made⟩
          exact ⟨handle, opened, log, rfl, .inr ⟨fault, failure, made⟩⟩

/-- Where an archive has been made, its output was opened and all of the tree gathered. -/
theorem opened_of_create {names : List String} {last : Session}
    (made : create source output session = .ok names last) :
    ∃ handle opened, openToWrite output session.disk = .ok handle opened ∧
      (gatherTree opened handle source).failure = none ∧
      names = (gatherTree opened handle source).entries.map (·.name) ∧
      last.disk = archived opened handle source := by
  rcases create_cases source output session with
    ⟨cause, -, refused⟩ | ⟨handle, opened, log, ran, ⟨complete, done⟩ | ⟨fault, -, discarded⟩⟩
  · cases refused.symm.trans made
  · cases done.symm.trans made
    exact ⟨handle, opened, ran, complete, rfl, rfl⟩
  · cases discarded.symm.trans made

/-- An archive is made exactly when its output can be opened and all of the tree gathered. -/
theorem exists_create_eq_ok_iff :
    (∃ names last, create source output session = .ok names last) ↔
      ∃ handle opened, openToWrite output session.disk = .ok handle opened ∧
        (gatherTree opened handle source).failure = none := by
  constructor
  · rintro ⟨names, last, made⟩
    rcases opened_of_create made with ⟨handle, opened, ran, complete, -⟩
    exact ⟨handle, opened, ran, complete⟩
  · rintro ⟨handle, opened, ran, complete⟩
    rcases create_of_complete source ran complete with ⟨log, made⟩
    exact ⟨_, _, made⟩

/-! ## What the archive of a tree holds -/

/-- The regular files strictly below a place with their names, in order. -/
def listing (system : FileSystem) (place : Place) : List (List Name × File) :=
  (system.filesBelow place).filterMap fun pair =>
    (system.file? pair.2).map fun file => (pair.1, file)

theorem mem_listing {place : Place} {names : List Name} {file : File} :
    (names, file) ∈ listing disk place ↔ disk.FileBelow place names file := by
  simp only [listing, List.mem_filterMap, Option.map_eq_some_iff, Prod.mk.injEq, FileBelow]
  constructor
  · rintro ⟨⟨_, id⟩, member, _, content, rfl, rfl⟩
    exact ⟨id, member, content⟩
  · rintro ⟨id, member, content⟩
    exact ⟨(names, id), member, file, content, rfl, rfl⟩

theorem nodup_listing (disk : FileSystem) (place : Place) :
    ((listing disk place).map Prod.fst).Nodup := by
  have names : ((listing disk place).map Prod.fst).Sublist
      ((disk.filesBelow place).map Prod.fst) := by
    rw [listing]
    generalize disk.filesBelow place = files
    induction files with
    | nil =>
        exact List.Sublist.slnil
    | cons pair others hypothesis =>
        cases content : disk.file? pair.2 with
        | none =>
            simpa [content] using hypothesis.cons _
        | some file =>
            simpa [content] using hypothesis
  exact names.nodup (nodup_filesBelow disk place)

theorem exists_forall₂_iff {α β : Type} {relation : α → β → Prop} {list : List α} :
    (∃ others, List.Forall₂ relation list others) ↔ ∀ one ∈ list, ∃ other, relation one other := by
  induction list with
  | nil =>
      simp
  | cons one rest hypothesis =>
      rw [List.forall_mem_cons, ← hypothesis]
      simp only [List.forall₂_cons_left_iff]
      constructor
      · rintro ⟨_, other, later, related, rests, -⟩
        exact ⟨⟨other, related⟩, later, rests⟩
      · rintro ⟨⟨other, related⟩, later, rests⟩
        exact ⟨_, other, later, related, rests, rfl⟩

theorem forall₂_listing {files : List (List Name × Nat)} {entries : List Entry}
    (each : List.Forall₂ (fun pair entry =>
      ∃ file, disk.file? pair.2 = some file ∧ file.isReadable = true ∧ Describes pair.1 file entry)
      files entries) :
    List.Forall₂ (fun pair entry => Describes pair.1 pair.2 entry)
      (files.filterMap fun pair => (disk.file? pair.2).map fun file => (pair.1, file)) entries := by
  induction each with
  | nil =>
      exact .nil
  | cons describes rest hypothesis =>
      rcases describes with ⟨file, content, -, describes⟩
      simpa [content] using ⟨describes, hypothesis⟩

theorem bytes_ne_nil_of_locate {path : Path} {place : Place}
    (found : disk.locate path = .ok place) : path.bytes ≠ [] := by
  rcases resolve_eq_ok_iff.mp (locate_eq_ok_iff.mp found) with ⟨-, here, begins, -⟩
  intro empty
  simp [start, empty] at begins

variable {place : Place}

/-- Once an output outside the tree is open, the archive is decided by the files in the tree. -/
theorem gatherTree_iff (wellFormed : disk.WellFormed) (found : disk.locate source = .ok place)
    (stands : disk.nodeAt? place = some .directory) (short : disk.WithinLimits source place)
    {handle : Handle} {opened : FileSystem} (changed : OpenedOutside place disk handle opened)
    {entries : List Entry} :
    ((gatherTree opened handle source).entries = entries ∧
        (gatherTree opened handle source).failure = none) ↔
      List.Forall₂ (fun pair entry =>
        ∃ file, disk.file? pair.2 = some file ∧ file.isReadable = true ∧
          Describes pair.1 file entry)
        (disk.filesBelow place) entries := by
  have directory : opened.nodeAt? place = some .directory := by
    cases place with
    | live top =>
        exact changed.keeps top .directory stands
    | removed between above =>
        rfl
  have walked := walk_eq_files (changed.locate found) directory (changed.withinLimits short)
  rw [changed.filesBelow] at walked
  rcases gatherTree_cases changed.wellFormed handle source with
    ⟨fault, refused, -⟩ | ⟨listed, reported, -, gathers⟩
  · cases walked.symm.trans refused
  cases walked.symm.trans reported
  refine gathers.complete_iff ?_
  rintro ⟨names, id⟩ member done entry
  rcases mem_filesBelow.mp member with ⟨-, top, same, stands⟩
  rcases file?_of_mem_filesBelow wellFormed member with ⟨-, file, content⟩
  have holds : opened.file? id = some file := (changed.contents names id member).trans content
  have fits := short top names same (by simp [stands])
  rw [adds_iff (bytes_ne_nil_of_locate found) (isSegment_of_mem_filesBelow wellFormed member) fits
    holds (changed.apart names id member)]
  simp [content]

/--
Everything in the tree can be archived exactly when each file in it is called by text and may be
read.
-/
theorem gatherTree_complete_iff (wellFormed : disk.WellFormed)
    (found : disk.locate source = .ok place) (stands : disk.nodeAt? place = some .directory)
    (short : disk.WithinLimits source place) {handle : Handle} {opened : FileSystem}
    (changed : OpenedOutside place disk handle opened) :
    (gatherTree opened handle source).failure = none ↔
      ∀ names file, disk.FileBelow place names file →
        IsText (joinSegments names) ∧ file.isReadable = true := by
  have gathers := @gatherTree_iff disk source place wellFormed found stands short _ _ changed
  have complete : (gatherTree opened handle source).failure = none ↔
      ∃ entries, (gatherTree opened handle source).entries = entries ∧
        (gatherTree opened handle source).failure = none := by
    simp
  rw [complete]
  simp only [gathers, exists_forall₂_iff]
  constructor
  · rintro each names file ⟨id, member, content⟩
    rcases each (names, id) member with ⟨entry, other, known, readable, describes⟩
    cases content.symm.trans known
    exact ⟨exists_describes_iff.mp ⟨entry, describes⟩, readable⟩
  · rintro fits ⟨names, id⟩ member
    rcases file?_of_mem_filesBelow wellFormed member with ⟨-, file, content⟩
    rcases fits names file ⟨id, member, content⟩ with ⟨text, readable⟩
    rcases exists_describes_iff.mpr text with ⟨entry, describes⟩
    exact ⟨entry, file, content, readable, describes⟩

/--
The entries of an archive are those of the files in the tree, one for each and no others, and the
archive is what the output holds, unless the output is a device.  If it is none, an archive is made
exactly when the output can be opened and each file of the tree is called by text and may be read.
-/
theorem create_complete (wellFormed : session.disk.WellFormed)
    (found : session.disk.locate source = .ok place)
    (stands : session.disk.nodeAt? place = some .directory)
    (outside : ¬ session.disk.WritesInto place output)
    (short : session.disk.WithinLimits source place) :
    (∀ names last, create source output session = .ok names last →
      ∃ files entries, (files.map Prod.fst).Nodup ∧
        (∀ path file, (path, file) ∈ files ↔ session.disk.FileBelow place path file) ∧
        List.Forall₂ (fun pair entry => Describes pair.1 pair.2 entry) files entries ∧
        names = entries.map (·.name) ∧
        (session.disk.IsDevice output ∨ last.disk.contentOf output = .ok (.archive entries))) ∧
    (¬ session.disk.IsDevice output →
      ((∃ names last, create source output session = .ok names last) ↔
        (∃ handle opened, openToWrite output session.disk = .ok handle opened) ∧
          ∀ path file, session.disk.FileBelow place path file →
            IsText (joinSegments path) ∧ file.isReadable = true)) := by
  have changed : ∀ {handle opened}, openToWrite output session.disk = .ok handle opened →
      OpenedOutside place session.disk handle opened := fun ran =>
    openedOutside_of_opens wellFormed outside (opens_of_ok ran)
  refine ⟨?entries, fun _ => ?answer⟩
  case entries =>
    intro names last made
    rcases opened_of_create made with ⟨handle, opened, ran, complete, rfl, disk⟩
    have described := (gatherTree_iff wellFormed found stands short (changed ran)).mp
      ⟨rfl, complete⟩
    refine ⟨_, _, nodup_listing session.disk place, fun _ _ => mem_listing,
      forall₂_listing described, rfl, ?_⟩
    by_cases device : session.disk.IsDevice output
    · exact .inl device
    · exact .inr (disk ▸ contentOf_of_opens wellFormed (opens_of_ok ran) device _)
  case answer =>
    have complete_iff := fun {handle opened}
        (ran : openToWrite output session.disk = .ok handle opened) =>
      gatherTree_complete_iff wellFormed found stands short (changed ran)
    rw [exists_create_eq_ok_iff]
    constructor
    · rintro ⟨handle, opened, ran, complete⟩
      exact ⟨⟨handle, opened, ran⟩, (complete_iff ran).mp complete⟩
    · rintro ⟨⟨handle, opened, ran⟩, fits⟩
      exact ⟨handle, opened, ran, (complete_iff ran).mpr fits⟩

/--
Two trees with one file each, of which one may not be read, and beside them a second name of the
other file and a link to a device.
-/
def sample : FileSystem :=
  stateAfter
    (do
      makeDirectory (.ofString "/tree")
      writeFile (.ofString "/tree/file") (.plain [0x78])
      makeName (.ofString "/twin") (.ofString "/tree/file")
      makeLink (.ofString "/link") (.ofString "/null")
      makeDirectory (.ofString "/shut")
      writeFile (.ofString "/shut/file") (.plain [0x79])
      changeMode (.ofString "/shut/file") 0o200)
    (FileSystem.empty.put [Utf8.ofString "null"] (.special .device))

theorem wellFormed_sample : sample.WellFormed := by
  have device : (FileSystem.empty.put ([] ++ [Utf8.ofString "null"])
      (.special .device)).WellFormed :=
    wellFormed_empty.put rfl rfl (by decide) trivial
  refine Keeps.bind (keeps_makeDirectory _) (fun _ => ?_) _ device
  refine Keeps.bind (keeps_writeFile _ _) fun _ => ?_
  refine Keeps.bind (keeps_makeName _ _) fun _ => ?_
  refine Keeps.bind (keeps_makeLink _ _) fun _ => ?_
  refine Keeps.bind (keeps_makeDirectory _) fun _ => ?_
  exact Keeps.bind (keeps_writeFile _ _) fun _ => keeps_changeMode _ _

/-- Both trees are directories at the root with a single file, and their paths are short. -/
theorem trees_sample {top : String} {id : Nat} (known : (top, id) ∈ [("tree", 0), ("shut", 1)]) :
    sample.locate (.ofString ("/" ++ top)) = .ok (.live [Utf8.ofString top]) ∧
      sample.node? [Utf8.ofString top] = some .directory ∧
      sample.filesBelow (.live [Utf8.ofString top]) = [([Utf8.ofString "file"], id)] ∧
      sample.WithinLimits (.ofString ("/" ++ top)) (.live [Utf8.ofString top]) := by
  have only : sample.below [Utf8.ofString top] =
      [([Utf8.ofString top, Utf8.ofString "file"], .file id)] := by
    simp only [List.mem_cons, Prod.mk.injEq, List.not_mem_nil, or_false] at known
    rcases known with ⟨rfl, rfl⟩ | ⟨rfl, rfl⟩ <;> rfl
  refine ⟨?_, ?_, by rw [filesBelow, only]; rfl, ?_⟩
  · simp only [List.mem_cons, Prod.mk.injEq, List.not_mem_nil, or_false] at known
    rcases known with ⟨rfl, rfl⟩ | ⟨rfl, rfl⟩ <;> rfl
  · simp only [List.mem_cons, Prod.mk.injEq, List.not_mem_nil, or_false] at known
    rcases known with ⟨rfl, rfl⟩ | ⟨rfl, rfl⟩ <;> rfl
  · rintro _ names ⟨⟩ stands
    have short : ∀ names ∈ [[], [Utf8.ofString "file"]],
        (pathBelow (.ofString ("/" ++ top)) names).bytes.length < pathLimit := by
      simp only [List.mem_cons, Prod.mk.injEq, List.not_mem_nil, or_false] at known
      rcases known with ⟨rfl, rfl⟩ | ⟨rfl, rfl⟩ <;> decide
    by_cases root : names = []
    · exact short names (by simp [root])
    · rcases Option.ne_none_iff_exists'.mp stands with ⟨node, found⟩
      have below : (Utf8.ofString top :: names, node) ∈ sample.below [Utf8.ofString top] :=
        mem_below_iff.mpr ⟨found, List.prefix_append .., by simpa using root⟩
      rw [only, List.mem_singleton, Prod.mk.injEq, List.cons.injEq] at below
      exact short names (by simp [below.1.2])

/-- A new output at the root and the link lie outside both trees. -/
theorem outside_sample {top output : String} (known : top ∈ ["tree", "shut"])
    (other : output ∈ ["/output", "/link"]) :
    ¬ sample.WritesInto (.live [Utf8.ofString top]) (.ofString output) := by
  have made : sample.resolve .creation (.ofString "/output") =
      .ok (.vacant [] (Utf8.ofString "output")) := rfl
  have linked : sample.resolve .creation (.ofString "/link") =
      .ok (.occupied (.live [Utf8.ofString "null"])) := rfl
  have stands : sample.node? [Utf8.ofString "null"] = some (.special .device) := rfl
  have apart : ¬ [Utf8.ofString top] <+: [Utf8.ofString "output"] := by
    simp only [List.mem_cons, List.not_mem_nil, or_false] at known
    rcases known with rfl | rfl <;> decide
  simp only [List.mem_cons, List.not_mem_nil, or_false] at other
  rcases other with rfl | rfl
  · rintro (⟨_, directory, name, ⟨⟩, ends, inside⟩ | ⟨location, id, names, ends, -⟩)
    · cases made.symm.trans ends
      exact apart inside
    · cases made.symm.trans ends
  · rintro (⟨_, directory, name, -, ends, -⟩ | ⟨location, id, names, ends, file, -⟩)
    · cases linked.symm.trans ends
    · cases linked.symm.trans ends
      cases stands.symm.trans file

/-- The file that may be read is archived to a new output beside the trees. -/
theorem create_complete_sample :
    ∃ names last, create (.ofString "/tree") (.ofString "/output") ⟨sample, []⟩ =
      .ok names last := by
  rcases @trees_sample "tree" 0 (by decide) with ⟨found, stands, files, short⟩
  have kept : ¬ sample.IsDevice (.ofString "/output") := by
    rintro ⟨location, ends, -⟩
    cases ends
  have directory : sample.nodeAt? (.live [Utf8.ofString "tree"]) = some .directory := stands
  refine ((create_complete wellFormed_sample found directory
    (outside_sample (by decide) (by decide)) short).2 kept).mpr ⟨⟨_, _, rfl⟩, ?_⟩
  rintro path file ⟨id, member, content⟩
  rw [files, List.mem_singleton, Prod.mk.injEq] at member
  rcases member with ⟨rfl, rfl⟩
  cases content
  exact ⟨⟨"file", rfl⟩, by decide⟩

/--
A device that a link leads to takes the archive of a file and keeps nothing of it.  A second name of
the file takes the archive as well, and then the entry is not that of the file.  A file that may not
be read is not archived, although it is called by text.
-/
theorem create_complete_exceptions :
    sample.WellFormed ∧
      (∀ top ∈ ["tree", "shut"],
        sample.locate (.ofString ("/" ++ top)) = .ok (.live [Utf8.ofString top]) ∧
          sample.node? [Utf8.ofString top] = some .directory ∧
          sample.WithinLimits (.ofString ("/" ++ top)) (.live [Utf8.ofString top]) ∧
          ∀ output ∈ ["/output", "/link"],
            ¬ sample.WritesInto (.live [Utf8.ofString top]) (.ofString output)) ∧
      (∃ names last,
        create (.ofString "/tree") (.ofString "/link") ⟨sample, []⟩ = .ok names last ∧
          ∀ entries, last.disk.contentOf (.ofString "/link") ≠ .ok (.archive entries)) ∧
      (sample.resolve .creation (.ofString "/twin") =
          .ok (.occupied (.live [Utf8.ofString "twin"])) ∧
        sample.contentOf (.ofString "/tree/file") = .ok (.plain [0x78]) ∧
        ∃ names last entry,
          create (.ofString "/tree") (.ofString "/twin") ⟨sample, []⟩ = .ok names last ∧
            last.disk.contentOf (.ofString "/twin") = .ok (.archive [entry]) ∧
            entry.data ≠ [0x78]) ∧
      (∀ path file, sample.FileBelow (.live [Utf8.ofString "shut"]) path file →
        IsText (joinSegments path)) ∧
      (∃ handle opened, openToWrite (.ofString "/output") sample = .ok handle opened) ∧
      ∃ last, create (.ofString "/shut") (.ofString "/output") ⟨sample, []⟩ =
        .error (.io (.refused .accessDenied)) last := by
  refine ⟨wellFormed_sample, ?trees, ?device, ?twin, ?texts, ⟨_, _, rfl⟩, _, rfl⟩
  case trees =>
    intro top known
    have listed : ∃ id, (top, id) ∈ [("tree", 0), ("shut", 1)] := by
      simp only [List.mem_cons, List.not_mem_nil, or_false] at known
      rcases known with rfl | rfl
      · exact ⟨0, by decide⟩
      · exact ⟨1, by decide⟩
    rcases listed with ⟨id, listed⟩
    rcases trees_sample listed with ⟨found, stands, -, short⟩
    exact ⟨found, stands, short, fun _ other => outside_sample known other⟩
  case device =>
    refine ⟨["file"], ⟨sample, _⟩, rfl, fun entries same => ?_⟩
    have irregular : sample.contentOf (.ofString "/link") = .error (.refused .isDirectory) := rfl
    rw [irregular] at same
    cases same
  case twin =>
    exact ⟨rfl, rfl, ["file"], _, _, rfl, rfl, by decide⟩
  case texts =>
    rintro path file ⟨id, member, -⟩
    rcases @trees_sample "shut" 1 (by decide) with ⟨-, -, files, -⟩
    rw [files, List.mem_singleton, Prod.mk.injEq] at member
    exact ⟨"file", by rw [member.1]; rfl⟩

end Archive

end BundlePacker
