import BundlePacker.Invariant
import BundlePacker.Proofs.Archive.EntryName
import BundlePacker.Proofs.FileSystem.Preorder

/-!
# Gathering the files of a tree

An archive is written while the files are read that go into it, so the disk from which a file is
read is the one that the entries before it have left.  Each file is added, or it ends the gathering:
it has no name, or it can not be read.  A walk reports files in the order of their names, and so no
two entries are called alike and the writer never has to refuse a name.

The main statement lists how what a walk has found is gathered.  Its order and its names follow by
induction on that.
-/

namespace BundlePacker

open FileSystem
open BundlePacker.Path (joinSegments)

namespace FileSystem

theorem write_eq (handle : Handle) (content : Content) (system : FileSystem) :
    write handle content system = .ok () (stateAfter (write handle content) system) := by
  cases handle with
  | sink =>
      rfl
  | file id =>
      cases content with
      | archive entries =>
          rfl
      | plain bytes =>
          cases bytes <;> rfl

/-! ## What a walk reports -/

/-- What a walk from a root reports of a node that it comes upon below a location. -/
def found? (root : Path) (top : Location) (pair : Location × Node) : Option Found :=
  let path := pathBelow root (pair.1.drop top.length)
  match pair.2 with
  | .file id => some (.file path id)
  | .directory => if pathLimit ≤ path.bytes.length then some (.tooDeep path) else none
  | .link _ | .special _ => none

theorem foundIn_eq (system : FileSystem) (root : Path) (top : Location) :
    system.foundIn root top = (system.below top).filterMap (found? root top) :=
  rfl

variable {system : FileSystem} {root : Path}

theorem found?_eq_file_iff {top : Location} {pair : Location × Node} {path : Path} {id : Nat} :
    found? root top pair = some (.file path id) ↔
      pair.2 = .file id ∧ path = pathBelow root (pair.1.drop top.length) := by
  rcases pair with ⟨location, node⟩
  cases node with
  | directory =>
      simp only [found?]
      split <;> simp
  | file other =>
      simp only [found?, Option.some.injEq, Found.file.injEq, Node.file.injEq]
      exact ⟨fun same => ⟨same.2, same.1.symm⟩, fun same => ⟨same.2.symm, same.1⟩⟩
  | link target => simp [found?]
  | special special => simp [found?]

/-- A walk reports the files below its root. -/
theorem file_mem_foundIn_iff {top : Location} {path : Path} {id : Nat} :
    .file path id ∈ system.foundIn root top ↔
      ∃ names, (names, id) ∈ system.filesBelow (.live top) ∧ path = pathBelow root names := by
  rw [foundIn_eq, List.mem_filterMap]
  constructor
  · rintro ⟨⟨location, node⟩, inside, reported⟩
    rcases found?_eq_file_iff.mp reported with ⟨isFile, rfl⟩
    refine ⟨_, List.mem_filterMap.mpr ⟨_, inside, ?_⟩, rfl⟩
    simp only at isFile
    rw [isFile]
  · rintro ⟨names, inside, rfl⟩
    rcases List.mem_filterMap.mp inside with ⟨⟨location, node⟩, stands, shown⟩
    refine ⟨_, stands, found?_eq_file_iff.mpr ?_⟩
    split at shown
    · next isFile =>
      cases shown
      exact ⟨isFile, rfl⟩
    · cases shown

theorem bytes_ne_nil_of_locateEntry {place : Place} (found : system.locateEntry root = .ok place) :
    root.bytes ≠ [] := by
  intro empty
  simp [locateEntry, resolve, start, empty, Bind.bind, Except.bind] at found

/-- A walk finds nothing, the file that its root is, or what stands in a directory. -/
theorem cases_of_walk {found : List Found} (walked : system.walk root = .ok found) :
    found = [] ∨ (∃ id, found = [.file root id]) ∨
      root.bytes ≠ [] ∧ ∃ top, found = system.foundIn root top := by
  cases entry : system.locateEntry root with
  | error fault => simp [walk, Bind.bind, Except.bind, entry] at walked
  | ok place =>
      have nonempty := bytes_ne_nil_of_locateEntry entry
      cases place with
      | removed between above =>
          simp only [walk, Bind.bind, Except.bind, entry, Except.ok.injEq] at walked
          exact .inl walked.symm
      | live location =>
          simp only [walk, Bind.bind, Except.bind, entry] at walked
          split at walked
          · exact .inr (.inr ⟨nonempty, location, (Except.ok.inj walked).symm⟩)
          · exact .inr (.inl ⟨_, (Except.ok.inj walked).symm⟩)
          · split at walked
            · cases walked
            split at walked
            · exact .inl (Except.ok.inj walked).symm
            split at walked
            · exact .inr (.inr ⟨nonempty, _, (Except.ok.inj walked).symm⟩)
            · exact .inl (Except.ok.inj walked).symm
          · exact .inl (Except.ok.inj walked).symm

end FileSystem

namespace Archive

/-! ## The order of names -/

/-- Whether one entry's name comes before another: its components by their bytes, one by one. -/
def Precedes (first second : String) : Prop :=
  compare (Path.segments (Utf8.ofString first)) (Path.segments (Utf8.ofString second)) = .lt

instance (first second : String) : Decidable (Precedes first second) :=
  inferInstanceAs (Decidable (_ = _))

theorem Precedes.ne {first second : String} (before : Precedes first second) : first ≠ second := by
  rintro rfl
  simp [Precedes] at before

/-- A slash comes before every other byte of a name. -/
example : Precedes "a/b" "a.b" ∧ Precedes "a/b" "a-b" ∧ Precedes "a/b" "a b" := by
  decide

variable {disk : FileSystem} {handle : Handle} {root path : Path} {id : Nat}

/-- Names of files in a tree are compared as the components that lead to the files. -/
theorem precedes_iff {first second : String} {names others : List Name}
    (pieces : ∀ name ∈ names, IsSegment name) (otherPieces : ∀ name ∈ others, IsSegment name)
    (nonempty : names ≠ []) (otherNonempty : others ≠ [])
    (encodes : Utf8.ofString first = joinSegments names)
    (otherEncodes : Utf8.ofString second = joinSegments others) :
    Precedes first second ↔ compare names others = .lt := by
  rw [Precedes, encodes, otherEncodes,
    Path.segments_joinSegments nonempty fun name inside => (pieces name inside).noSlash,
    Path.segments_joinSegments otherNonempty fun name inside => (otherPieces name inside).noSlash]

/-- Whether the entry of one file that a walk has found is called before that of another. -/
def CalledBefore (root : Path) (one other : Found) : Prop :=
  ∀ ⦃path otherPath : Path⦄ ⦃id otherId : Nat⦄ ⦃name otherName : String⦄,
    one = .file path id → other = .file otherPath otherId → entryName root path = .ok name →
      entryName root otherPath = .ok otherName → Precedes name otherName

/-- What a walk finds in a directory is called in ascending order. -/
theorem pairwise_foundIn (wellFormed : disk.WellFormed) (nonempty : root.bytes ≠ [])
    (top : Location) : (disk.foundIn root top).Pairwise (CalledBefore root) := by
  rw [foundIn_eq, List.pairwise_filterMap]
  refine (ordered_below disk top).imp_of_mem ?_
  rintro ⟨one, node⟩ ⟨other, otherNode⟩ inside otherInside before
  intro found reported otherFound otherReported path otherPath id otherId name otherName same
    otherSame called otherCalled
  subst same otherSame
  rcases found?_eq_file_iff.mp reported with ⟨-, rfl⟩
  rcases found?_eq_file_iff.mp otherReported with ⟨-, rfl⟩
  rcases mem_below_iff.mp inside with ⟨stands, ⟨names, rfl⟩, proper⟩
  rcases mem_below_iff.mp otherInside with ⟨otherStands, ⟨others, rfl⟩, otherProper⟩
  have pieces : ∀ name ∈ names, IsSegment name := fun name member =>
    wellFormed.isSegment_of_mem (stands ▸ Option.some_ne_none node) name
      (List.mem_append_right _ member)
  have otherPieces : ∀ name ∈ others, IsSegment name := fun name member =>
    wellFormed.isSegment_of_mem (otherStands ▸ Option.some_ne_none otherNode) name
      (List.mem_append_right _ member)
  rw [compare_append] at before
  simp only [List.drop_left] at called otherCalled
  exact (precedes_iff pieces otherPieces (by simpa using proper) (by simpa using otherProper)
    (text_of_entryName nonempty pieces called)
    (text_of_entryName nonempty otherPieces otherCalled)).mpr before

theorem pairwise_of_walk (wellFormed : disk.WellFormed) {found : List Found}
    (walked : disk.walk root = .ok found) : found.Pairwise (CalledBefore root) := by
  rcases cases_of_walk walked with rfl | ⟨id, rfl⟩ | ⟨nonempty, top, rfl⟩
  · exact .nil
  · exact List.pairwise_singleton ..
  · exact pairwise_foundIn wellFormed nonempty top

/-! ## Adding one file -/

/-- The moment of every entry can be recorded. -/
theorem stamp_eq : stamp = .ok .epoch :=
  rfl

/-- The entry of a file has the file's name and mode, and no bytes yet. -/
theorem heading_eq_ok_iff {modified : Timestamp} {bare : Entry} :
    heading disk root modified path id = .ok bare ↔
      ∃ name file, entryName root path = .ok name ∧ path.bytes.length < pathLimit ∧
        disk.file? id = some file ∧
        bare = ⟨name, [], file.mode.setWidth 9, .deflate, modified⟩ := by
  rw [heading]
  cases entryName root path with
  | error fault =>
      simp
  | ok name =>
      by_cases long : pathLimit ≤ path.bytes.length
      · simp [long]
      · cases disk.file? id with
        | none => simp [long]
        | some file => simp [long, Nat.lt_of_not_le long, eq_comm]

theorem entryName_of_heading {modified : Timestamp} {bare : Entry}
    (headed : heading disk root modified path id = .ok bare) :
    entryName root path = .ok bare.name := by
  rcases heading_eq_ok_iff.mp headed with ⟨name, file, called, -, -, rfl⟩
  exact called

/-- The disk from which the file of an entry is read, when some entries are done. -/
def reading (disk : FileSystem) (handle : Handle) (done : List Entry) (next : Entry) : FileSystem :=
  stateAfter (write handle (.plain (Format.beginning done next))) disk

/-- An entry with a name of its own can always be begun. -/
theorem underway_of_fresh {done : List Entry} {next : Entry}
    (fresh : next.name ∉ done.map (·.name)) :
    underway disk handle done next = .ok (reading disk handle done next) := by
  rw [underway, if_neg fresh, write_eq, reading]

/-- Whether a file is added, by an entry, to an archive in which some entries are done. -/
inductive Adds (disk : FileSystem) (handle : Handle) (root : Path) (done : List Entry)
    (path : Path) (id : Nat) : Entry → Prop
  | intro {bare : Entry} {data : Bytes} (headed : heading disk root .epoch path id = .ok bare)
      (reads : (reading disk handle done bare).readFile id = .ok data) :
      Adds disk handle root done path id { bare with data }

theorem Adds.called {done : List Entry} {entry : Entry}
    (adds : Adds disk handle root done path id entry) : entryName root path = .ok entry.name := by
  rcases adds with ⟨headed, -⟩
  exact (entryName_of_heading headed :)

theorem Adds.unique {done : List Entry} {entry other : Entry}
    (adds : Adds disk handle root done path id entry)
    (also : Adds disk handle root done path id other) : other = entry := by
  rcases adds with ⟨headed, reads⟩
  rcases also with ⟨otherHeaded, otherReads⟩
  cases headed.symm.trans otherHeaded
  cases reads.symm.trans otherReads
  rfl

/-! ## Gathering what a walk has found -/

/-- How what a walk has found is gathered behind the entries that are done. -/
inductive Gathers (disk : FileSystem) (handle : Handle) (root : Path) :
    List Entry → List Found → Gathered → Prop
  /-- Nothing is left. -/
  | nothing (done : List Entry) :
      Gathers disk handle root done [] ⟨[], [], none⟩
  /-- A directory can not be opened. -/
  | tooDeep (done : List Entry) (path : Path) (rest : List Found) :
      Gathers disk handle root done (.tooDeep path :: rest)
        ⟨[], [], some (.walk path (.refused .nameTooLong))⟩
  /-- A file has no entry. -/
  | unnamed {done : List Entry} {path : Path} {id : Nat} {rest : List Found} {fault : Error}
      (unnamed : heading disk root .epoch path id = .error fault) :
      Gathers disk handle root done (.file path id :: rest) ⟨[], [], some fault⟩
  /-- A file has an entry and can not be read. -/
  | unread {done : List Entry} {path : Path} {id : Nat} {rest : List Found} {bare : Entry}
      {fault : Fault} (headed : heading disk root .epoch path id = .ok bare)
      (unread : (reading disk handle done bare).readFile id = .error fault) :
      Gathers disk handle root done (.file path id :: rest)
        ⟨[bare], [.adding path bare.name], some (.io fault)⟩
  /-- A file is added. -/
  | added {done : List Entry} {path : Path} {id : Nat} {rest : List Found} {entry : Entry}
      {later : Gathered} (adds : Adds disk handle root done path id entry)
      (gathers : Gathers disk handle root (done ++ [entry]) rest later) :
      Gathers disk handle root done (.file path id :: rest)
        ⟨entry :: later.entries, .adding path entry.name :: later.events, later.failure⟩

/-- What is found in ascending order behind the entries that are done is gathered in that order. -/
theorem gathers_gather {done : List Entry} {found : List Found}
    (ordered : found.Pairwise (CalledBefore root))
    (behind : ∀ entry ∈ done, ∀ path id name, .file path id ∈ found →
      entryName root path = .ok name → Precedes entry.name name) :
    Gathers disk handle root done found (gather disk handle root .epoch done found) := by
  induction found generalizing done with
  | nil =>
      exact .nothing done
  | cons first rest hypothesis =>
      rcases List.pairwise_cons.mp ordered with ⟨before, later⟩
      cases first with
      | tooDeep path =>
          exact .tooDeep done path rest
      | file path id =>
          rw [gather]
          cases headed : heading disk root .epoch path id with
          | error fault =>
              exact .unnamed headed
          | ok bare =>
              have called := entryName_of_heading headed
              have fresh : bare.name ∉ done.map (·.name) := by
                intro again
                rcases List.mem_map.mp again with ⟨entry, inside, same⟩
                exact (behind entry inside path id _ (List.mem_cons_self ..) called).ne same
              simp only [underway_of_fresh fresh]
              cases reads : (reading disk handle done bare).readFile id with
              | error fault =>
                  exact .unread headed reads
              | ok data =>
                  refine .added (.intro headed reads) (hypothesis later ?_)
                  intro entry inside other otherId name found otherCalled
                  rcases List.mem_append.mp inside with early | own
                  · exact behind entry early other otherId name (List.mem_cons_of_mem _ found)
                      otherCalled
                  · cases List.mem_singleton.mp own
                    exact before _ found rfl rfl called otherCalled

/--
A tree on a well-formed disk can not be walked, or what the walk has found is gathered.  No entry is
called like another one, and so the archive refuses none.
-/
theorem gatherTree_cases (wellFormed : disk.WellFormed) (handle : Handle) (root : Path) :
    (∃ fault, disk.walk root = .error fault ∧
        gatherTree disk handle root = ⟨[], [], some (.walk root fault)⟩) ∨
      ∃ found, disk.walk root = .ok found ∧ found.Pairwise (CalledBefore root) ∧
        Gathers disk handle root [] found (gatherTree disk handle root) := by
  rw [gatherTree, stamp_eq]
  cases walked : disk.walk root with
  | error fault =>
      exact .inl ⟨fault, rfl, rfl⟩
  | ok found =>
      have ordered := pairwise_of_walk wellFormed walked
      have nothing : ∀ entry ∈ ([] : List Entry), ∀ path id name, .file path id ∈ found →
          entryName root path = .ok name → Precedes entry.name name := by
        simp
      exact .inr ⟨found, rfl, ordered, gathers_gather ordered nothing⟩

namespace Gathers

variable {done : List Entry} {found : List Found} {gathered : Gathered}

/-- Every entry is that of a file that has been found. -/
theorem exists_file (gathers : Gathers disk handle root done found gathered) {entry : Entry}
    (inside : entry ∈ gathered.entries) :
    ∃ path id, .file path id ∈ found ∧ entryName root path = .ok entry.name := by
  induction gathers with
  | nothing _ | tooDeep _ _ _ | unnamed _ =>
      cases inside
  | unread headed _ =>
      cases List.mem_singleton.mp inside
      exact ⟨_, _, List.mem_cons_self .., entryName_of_heading headed⟩
  | added adds _ hypothesis =>
      rcases List.mem_cons.mp inside with rfl | later
      · exact ⟨_, _, List.mem_cons_self .., adds.called⟩
      · rcases hypothesis later with ⟨other, otherId, found, called⟩
        exact ⟨other, otherId, List.mem_cons_of_mem _ found, called⟩

/-- Where nothing fails, every file that has been found has an entry. -/
theorem exists_entry (gathers : Gathers disk handle root done found gathered)
    (complete : gathered.failure = none) (inside : .file path id ∈ found) :
    ∃ entry ∈ gathered.entries, entryName root path = .ok entry.name := by
  induction gathers with
  | nothing _ =>
      cases inside
  | tooDeep _ _ _ | unnamed _ | unread _ _ =>
      cases complete
  | added adds _ hypothesis =>
      rcases List.mem_cons.mp inside with same | later
      · cases same
        exact ⟨_, List.mem_cons_self .., adds.called⟩
      · rcases hypothesis complete later with ⟨entry, member, called⟩
        exact ⟨entry, List.mem_cons_of_mem _ member, called⟩

/-- Entries are in the order of what has been found. -/
theorem pairwise (gathers : Gathers disk handle root done found gathered)
    (ordered : found.Pairwise (CalledBefore root)) :
    gathered.entries.Pairwise fun entry other => Precedes entry.name other.name := by
  induction gathers with
  | nothing _ | tooDeep _ _ _ | unnamed _ =>
      exact .nil
  | unread _ _ =>
      exact List.pairwise_singleton ..
  | added adds gathers hypothesis =>
      rcases List.pairwise_cons.mp ordered with ⟨before, ordered⟩
      refine .cons (fun other inside => ?_) (hypothesis ordered)
      rcases gathers.exists_file inside with ⟨otherPath, otherId, found, otherCalled⟩
      exact before _ found rfl rfl (adds.called) otherCalled

end Gathers

/-- The entries of a tree are called in ascending order, also where gathering them fails. -/
theorem pairwise_gatherTree (wellFormed : disk.WellFormed) (handle : Handle) (source : Path) :
    (gatherTree disk handle source).entries.Pairwise fun entry other =>
      Precedes entry.name other.name := by
  rcases gatherTree_cases wellFormed handle source with
    ⟨fault, -, unwalked⟩ | ⟨found, -, ordered, gathers⟩
  · rw [unwalked]
    exact .nil
  · exact gathers.pairwise ordered

/-- No entry of a tree is called like one before it. -/
theorem name_not_mem_of_split (wellFormed : disk.WellFormed) {source : Path}
    {before after : List Entry} {entry : Entry}
    (split : (gatherTree disk handle source).entries = before ++ entry :: after) :
    entry.name ∉ before.map (·.name) := by
  have ordered := pairwise_gatherTree wellFormed handle source
  rw [split, List.pairwise_append] at ordered
  intro again
  rcases List.mem_map.mp again with ⟨earlier, inside, same⟩
  exact (ordered.2.2 earlier inside entry (List.mem_cons_self ..)).ne same

/-! ## What can go wrong -/

/-- What can keep the tree at a path from being archived. -/
inductive Interrupts (root : Path) : Error → Prop
  | outside (path : Path) : Interrupts root (.outsideTree path root)
  | notText (path : Path) : Interrupts root (.nameNotText path)
  | refused (cause : Fault) : Interrupts root (.io cause)
  | unlisted (path : Path) (cause : Fault) : Interrupts root (.walk path cause)

theorem interrupts_of_entryName {fault : Error} (failed : entryName root path = .error fault) :
    Interrupts root fault := by
  rw [entryName] at failed
  split at failed
  · cases failed
    exact .outside path
  split at failed
  · cases failed
    exact .notText path
  · cases failed

theorem interrupts_of_heading {modified : Timestamp} {fault : Error}
    (failed : heading disk root modified path id = .error fault) : Interrupts root fault := by
  rw [heading] at failed
  split at failed
  · next unnamed =>
    cases failed
    exact interrupts_of_entryName unnamed
  split at failed
  · cases failed
    exact .refused _
  split at failed
  · cases failed
    exact .refused _
  · cases failed

theorem Gathers.interrupts {done : List Entry} {found : List Found} {gathered : Gathered}
    (gathers : Gathers disk handle root done found gathered) {fault : Error}
    (failed : gathered.failure = some fault) : Interrupts root fault := by
  induction gathers with
  | nothing _ =>
      cases failed
  | tooDeep _ path _ =>
      cases failed
      exact .unlisted path _
  | unnamed unnamed =>
      cases failed
      exact interrupts_of_heading unnamed
  | unread _ _ =>
      cases failed
      exact .refused _
  | added _ _ hypothesis =>
      exact hypothesis failed

/-- No tree fails to be archived because of its moment or of the archive. -/
theorem interrupts_of_gatherTree (wellFormed : disk.WellFormed) {fault : Error}
    (failed : (gatherTree disk handle root).failure = some fault) : Interrupts root fault := by
  rcases gatherTree_cases wellFormed handle root with
    ⟨cause, -, unwalked⟩ | ⟨found, -, -, gathers⟩
  · rw [unwalked] at failed
    cases failed
    exact .unlisted root cause
  · exact gathers.interrupts failed

end Archive

end BundlePacker
