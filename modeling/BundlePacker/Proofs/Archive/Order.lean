import BundlePacker.Proofs.Archive.Contents
import BundlePacker.Proofs.FileSystem.Preorder

/-!
# The order of an archive

Entries come in the order in which a walk finds their files.  The walk sorts one directory at a
time, and the names of two entries are compared component by component, so that `a/b` comes before
`a.b` although a slash is no smaller than a point.

The main statement says that this order does not depend on how a system lists its directories, that
no name comes twice, and that trees with the same files give the same names.
-/

namespace BundlePacker

open FileSystem
open BundlePacker.Path (joinSegments)

namespace FileSystem

variable {system : FileSystem} {root : Path}

/-- A walk that sorts each directory finds what a walk finds, however directories are listed. -/
theorem walk_eq_visit {order : Location → List Name} {top : Location}
    (wellFormed : system.WellFormed) (lists : system.Lists order)
    (found : system.locate root = .ok (.live top))
    (stands : system.node? top = some .directory) :
    system.walk root = .ok ((system.visit order top).filterMap (found? root top)) := by
  rw [walk_of_locate found stands, visit_eq_below wellFormed lists stands]
  rfl

end FileSystem

namespace Archive

variable {disk : FileSystem} {handle : Handle} {root : Path}

/-! ## Trees with the same files -/

/-- Whether a path leads to a directory at a place, and some names lead to files in its tree. -/
structure HoldsFiles (disk : FileSystem) (source : Path) (place : Place)
    (files : List Name → Prop) : Prop where
  found : disk.locate source = .ok place
  stands : disk.nodeAt? place = some .directory
  same : ∀ names, files names ↔ ∃ id, (names, id) ∈ disk.filesBelow place

variable {place : Place} {files : List Name → Prop}

/-- What a tree holds is not affected where its names and what leads to it are not. -/
theorem HoldsFiles.of_changed {after : FileSystem} (holds : HoldsFiles disk root place files)
    (changed : ChangedOutside place disk after) : HoldsFiles after root place files where
  found := changed.locate holds.found
  stands := by
    cases place with
    | live top => exact changed.keeps top .directory holds.stands
    | removed between above => rfl
  same names := by rw [holds.same, changed.filesBelow]

/-- What a tree holds does not depend on what has been written to its files. -/
theorem HoldsFiles.of_write {entries : List Entry}
    (holds : HoldsFiles (stateAfter (write handle (.archive entries)) disk) root place files) :
    HoldsFiles disk root place files where
  found := by
    have ends := locate_eq_ok_iff.mp holds.found
    refine locate_of_resolve (fun location node stands => ?_)
      (tree_write handle entries disk).2.symm (by simp) (fun _ _ vacant => by cases vacant) ends
    rwa [node?_write] at stands
  stands := by
    cases place with
    | live top => exact (node?_write ..).symm.trans holds.stands
    | removed between above => rfl
  same names := by
    rw [holds.same, filesBelow_congr fun top inner _ _ => node?_write handle entries disk inner]

/-- Where every file of a tree has an entry, the names of the entries are those of the files. -/
theorem HoldsFiles.mem_names_iff (holds : HoldsFiles disk root place files)
    (wellFormed : disk.WellFormed) (complete : (gatherTree disk handle root).failure = none)
    {name : String} :
    name ∈ (gatherTree disk handle root).entries.map (·.name) ↔
      ∃ names, files names ∧ Utf8.ofString name = joinSegments names := by
  have nonempty := bytes_ne_nil_of_locate holds.found
  have walked := walk_of_locate holds.found holds.stands
  simp only [holds.same]
  rcases gatherTree_cases wellFormed handle root with
    ⟨fault, refused, -⟩ | ⟨found, reported, -, gathers⟩
  · cases place <;> cases walked.symm.trans refused
  have listed : ∀ {path id}, .file path id ∈ found ↔
      ∃ names, (names, id) ∈ disk.filesBelow place ∧ path = pathBelow root names := by
    cases place with
    | removed between above =>
        cases walked.symm.trans reported
        simp [filesBelow]
    | live top =>
        cases walked.symm.trans reported
        exact file_mem_foundIn_iff
  have text : ∀ {names id}, (names, id) ∈ disk.filesBelow place → ∀ {called},
      entryName root (pathBelow root names) = .ok called →
      Utf8.ofString called = joinSegments names := fun member _ =>
    text_of_entryName nonempty (isSegment_of_mem_filesBelow wellFormed member)
  rw [List.mem_map]
  constructor
  · rintro ⟨entry, inside, rfl⟩
    rcases gathers.exists_file inside with ⟨path, id, reports, called⟩
    rcases listed.mp reports with ⟨names, member, rfl⟩
    exact ⟨names, ⟨id, member⟩, text member called⟩
  · rintro ⟨names, ⟨id, member⟩, encodes⟩
    rcases gathers.exists_entry complete (listed.mpr ⟨names, member, rfl⟩) with
      ⟨entry, inside, called⟩
    exact ⟨entry, inside, Utf8.ofString_injective ((text member called).trans encodes.symm)⟩

/-- Ascending names are decided by which of them there are. -/
theorem eq_of_pairwise_precedes {first second : List String} (ordered : first.Pairwise Precedes)
    (otherOrdered : second.Pairwise Precedes) (same : ∀ name, name ∈ first ↔ name ∈ second) :
    first = second := by
  have distinct : ∀ {names : List String}, names.Pairwise Precedes → names.Nodup :=
    fun ordered => ordered.imp Precedes.ne
  have permuted : first.Perm second :=
    (List.perm_ext_iff_of_nodup (distinct ordered) (distinct otherOrdered)).mpr same
  refine permuted.eq_of_pairwise ?_ ordered otherOrdered
  intro one other _ _ before after
  exact absurd after (Std.OrientedCmp.not_lt_of_lt before)

/--
Whether files are called by some names in the tree that is archived: before, if the output lies
outside the tree, or else afterwards.
-/
def ArchivedFiles (source output : Path) (session last : Session) (files : List Name → Prop) :
    Prop :=
  ∃ place,
    HoldsFiles session.disk source place files ∧ ¬ session.disk.WritesInto place output ∨
      HoldsFiles last.disk source place files

/-- The names of an archive are those of the files in the tree. -/
theorem mem_names_of_create {session last : Session} {source output : Path} {names : List String}
    (wellFormed : session.disk.WellFormed) (made : create source output session = .ok names last)
    (archived : ArchivedFiles source output session last files) {name : String} :
    name ∈ names ↔ ∃ path, files path ∧ Utf8.ofString name = joinSegments path := by
  rcases opened_of_create made with ⟨handle, opened, ran, complete, rfl, disk⟩
  have opens := opens_of_ok ran
  have opensWellFormed := opens.wellFormed wellFormed
  rcases archived with ⟨place, ⟨holds, outside⟩ | holds⟩
  · have changed := changedOutside_of_opens wellFormed outside opens
    exact (holds.of_changed changed).mem_names_iff opensWellFormed complete
  · rw [disk] at holds
    exact holds.of_write.mem_names_iff opensWellFormed complete

/--
However directories are listed, a walk finds the same in the same order; no entry is called like one
before it; the names of an archive are ascending, and so are those of its entries; and two archives
of trees with the same files have the same names.
-/
theorem create_ordered :
    (∀ (disk : FileSystem) (order : Location → List Name) (source : Path) (top : Location),
      disk.WellFormed → disk.Lists order → disk.locate source = .ok (.live top) →
        disk.node? top = some .directory →
          disk.walk source = .ok ((disk.visit order top).filterMap (found? source top))) ∧
    (∀ (disk : FileSystem) (handle : Handle) (source : Path), disk.WellFormed →
      (∀ before entry after, (gatherTree disk handle source).entries = before ++ entry :: after →
          entry.name ∉ before.map (·.name)) ∧
        ∀ fault, (gatherTree disk handle source).failure ≠ some (.archive fault)) ∧
    (∀ (session last : Session) (source output : Path) (names : List String),
      session.disk.WellFormed → create source output session = .ok names last →
        names.Pairwise Precedes ∧ names.Nodup ∧
          (session.disk.IsDevice output ∨
            ∃ entries, last.disk.contentOf output = .ok (.archive entries) ∧
              names = entries.map (·.name))) ∧
    ∀ (first second firstLast secondLast : Session) (source output otherSource otherOutput : Path)
      (files : List Name → Prop) (names otherNames : List String),
      first.disk.WellFormed → second.disk.WellFormed →
        create source output first = .ok names firstLast →
        create otherSource otherOutput second = .ok otherNames secondLast →
        ArchivedFiles source output first firstLast files →
        ArchivedFiles otherSource otherOutput second secondLast files → names = otherNames := by
  have ordered : ∀ {session last : Session} {source output : Path} {names : List String},
      session.disk.WellFormed → create source output session = .ok names last →
        names.Pairwise Precedes := by
    intro session last source output names wellFormed made
    rcases opened_of_create made with ⟨handle, opened, ran, complete, rfl, -⟩
    have opens := opens_of_ok ran
    exact List.pairwise_map.mpr (pairwise_gatherTree (opens.wellFormed wellFormed) handle source)
  refine ⟨fun disk order source top wellFormed lists found stands =>
      walk_eq_visit wellFormed lists found stands,
    fun disk handle source wellFormed => ⟨fun _ _ _ => name_not_mem_of_split wellFormed, ?_⟩,
    ?_, ?_⟩
  · intro fault failed
    cases interrupts_of_gatherTree wellFormed failed
  · intro session last source output names wellFormed made
    have ascending := ordered wellFormed made
    refine ⟨ascending, ascending.imp Precedes.ne, ?_⟩
    rcases opened_of_create made with ⟨handle, opened, ran, -, same, disk⟩
    have opens := opens_of_ok ran
    by_cases device : session.disk.IsDevice output
    · exact .inl device
    · exact .inr ⟨_, disk ▸ contentOf_of_opens wellFormed opens device _, same⟩
  · intro first second firstLast secondLast source output otherSource otherOutput files names
      otherNames wellFormed otherWellFormed made otherMade archived otherArchived
    refine eq_of_pairwise_precedes (ordered wellFormed made) (ordered otherWellFormed otherMade)
      fun name => ?_
    rw [mem_names_of_create wellFormed made archived,
      mem_names_of_create otherWellFormed otherMade otherArchived]

/-- Two trees with files of the same names and different bytes. -/
def twoTrees : FileSystem :=
  stateAfter
    (do
      makeDirectory (.ofString "/one")
      makeDirectory (.ofString "/one/a")
      writeFile (.ofString "/one/a.b") (.plain [0x31])
      writeFile (.ofString "/one/a/b") (.plain [0x32])
      makeDirectory (.ofString "/two")
      makeDirectory (.ofString "/two/a")
      writeFile (.ofString "/two/a/b") (.plain [0x33])
      writeFile (.ofString "/two/a.b") (.plain [0x34]))
    FileSystem.empty

theorem wellFormed_twoTrees : twoTrees.WellFormed := by
  have directory := keeps_makeDirectory
  have file := keeps_writeFile
  refine Keeps.bind (directory _) (fun _ => ?_) _ wellFormed_empty
  refine Keeps.bind (directory _) fun _ => ?_
  refine Keeps.bind (file _ _) fun _ => ?_
  refine Keeps.bind (file _ _) fun _ => ?_
  refine Keeps.bind (directory _) fun _ => ?_
  refine Keeps.bind (directory _) fun _ => ?_
  exact Keeps.bind (file _ _) fun _ => file _ _

/-- A vacant name at the root is outside every directory there. -/
theorem outside_twoTrees {top : Name} (other : top ≠ Utf8.ofString "out") :
    ¬ twoTrees.WritesInto (.live [top]) (.ofString "/out") := by
  have ends : twoTrees.resolve .creation (.ofString "/out") =
      .ok (.vacant [] (Utf8.ofString "out")) := by
    cbv
  rintro (⟨location, directory, name, ⟨⟩, leads, inside⟩ | ⟨location, id, names, leads, -⟩)
  · rw [ends] at leads
    cases leads
    rw [List.nil_append, List.cons_prefix_cons] at inside
    exact other inside.1
  · rw [ends] at leads
    cases leads

theorem filesBelow_twoTrees :
    twoTrees.filesBelow (.live [Utf8.ofString "one"]) =
        [([Utf8.ofString "a", Utf8.ofString "b"], 1), ([Utf8.ofString "a.b"], 0)] ∧
      twoTrees.filesBelow (.live [Utf8.ofString "two"]) =
        [([Utf8.ofString "a", Utf8.ofString "b"], 2), ([Utf8.ofString "a.b"], 3)] := by
  decide +kernel

/-- Both trees have a file in a directory and one beside it. -/
theorem archivedFiles_twoTrees (top : String) (last : Session)
    (both : top = "one" ∨ top = "two") :
    ArchivedFiles (.ofString ("/" ++ top)) (.ofString "/out") ⟨twoTrees, []⟩ last fun names =>
      names = [Utf8.ofString "a", Utf8.ofString "b"] ∨ names = [Utf8.ofString "a.b"] := by
  refine ⟨.live [Utf8.ofString top], .inl ?_⟩
  rcases both with rfl | rfl
  · refine ⟨⟨by cbv, by cbv, fun names => ?_⟩, outside_twoTrees (by decide)⟩
    simp [filesBelow_twoTrees.1, exists_or]
  · refine ⟨⟨by cbv, by cbv, fun names => ?_⟩, outside_twoTrees (by decide)⟩
    simp [filesBelow_twoTrees.2, exists_or]

/--
Listed backwards the first tree is walked in the same order, and both trees give the same names.
-/
theorem create_ordered_twoTrees :
    twoTrees.walk (.ofString "/one") =
        .ok ((twoTrees.visit (fun location => (twoTrees.entries location).reverse)
          [Utf8.ofString "one"]).filterMap (found? (.ofString "/one") [Utf8.ofString "one"])) ∧
      (∃ first second,
        (gatherTree twoTrees .sink (.ofString "/one")).entries = [first, second] ∧
          second.name ∉ [first.name]) ∧
      (∃ last,
        create (.ofString "/one") (.ofString "/out") ⟨twoTrees, []⟩ = .ok ["a/b", "a.b"] last) ∧
      ["a/b", "a.b"].Pairwise Precedes ∧
      ∀ names last, create (.ofString "/two") (.ofString "/out") ⟨twoTrees, []⟩ = .ok names last →
        ["a/b", "a.b"] = names := by
  have wellFormed := wellFormed_twoTrees
  have found : twoTrees.locate (.ofString "/one") = .ok (.live [Utf8.ofString "one"]) := by cbv
  have stands : twoTrees.node? [Utf8.ofString "one"] = some .directory := by cbv
  have made : ∃ last, create (.ofString "/one") (.ofString "/out") ⟨twoTrees, []⟩ =
      .ok ["a/b", "a.b"] last :=
    ⟨_, rfl⟩
  refine ⟨create_ordered.1 twoTrees _ _ _ wellFormed (lists_entries twoTrees).reverse found stands,
    ?_, made, ?_, ?_⟩
  · have split : ∃ first second,
        (gatherTree twoTrees .sink (.ofString "/one")).entries = [first, second] :=
      ⟨_, _, rfl⟩
    rcases split with ⟨first, second, split⟩
    exact ⟨first, second, split,
      (create_ordered.2.1 twoTrees .sink _ wellFormed).1 [first] second [] split⟩
  · rcases made with ⟨last, made⟩
    exact (create_ordered.2.2.1 ⟨twoTrees, []⟩ last _ _ _ wellFormed made).1
  · intro names last otherMade
    rcases made with ⟨first, made⟩
    exact create_ordered.2.2.2 ⟨twoTrees, []⟩ ⟨twoTrees, []⟩ first last _ _ _ _ _ _ _ wellFormed
      wellFormed made otherMade (archivedFiles_twoTrees "one" first (.inl rfl))
      (archivedFiles_twoTrees "two" last (.inr rfl))

end Archive

end BundlePacker
