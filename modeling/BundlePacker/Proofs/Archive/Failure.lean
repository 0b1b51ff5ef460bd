import BundlePacker.Proofs.FileSystem.Vacancy
import BundlePacker.Proofs.FileSystem.Way

/-!
# Archives that can not be made

The output is opened before the tree is looked at, and so there are two ways to fail.  An output
that can not be opened is left alone, with all that it may hold.  An output that has been opened is
lost, as it is removed again when something in the tree can not be archived, however much was
archived before.

The main statement says that nothing else can happen: after a failure either nothing has changed, or
nothing stands at the output any more and everything else is as it was.
-/

namespace BundlePacker

open FileSystem

namespace FileSystem

variable {system : FileSystem} {location directory : Location} {name : Name} {path : Path}
  {content : Content}

/-- Whether nothing stands at a path any more, which is all that has changed. -/
structure Vacates (path : Path) (location : Location) (before after : FileSystem) : Prop where
  absent : after.Absent path
  vacant : after.view? location = none
  views : ∀ other, other ≠ location → after.view? other = before.view? other
  names : ∀ one other, one ≠ location → other ≠ location →
    (after.SameFile one other ↔ before.SameFile one other)
  places : after.workingDirectory = before.workingDirectory
  resolves : ∀ purpose other, ¬ before.PassesThrough purpose other location →
    after.resolve purpose other = before.resolve purpose other

/-- Where no directory stands nothing else is taken away. -/
theorem WellFormed.node?_cut_of_no_directory (wellFormed : system.WellFormed)
    (noDirectory : system.node? location ≠ some .directory) {other : Location}
    (differs : other ≠ location) : (system.cut location).node? other = system.node? other := by
  cases stands : system.node? location with
  | none => rw [wellFormed.cut_of_vacant stands]
  | some node =>
      exact wellFormed.node?_cut_leaf stands (by simpa [stands] using noDirectory) differs

theorem WellFormed.workingDirectory_cut_of_no_directory (wellFormed : system.WellFormed)
    (noDirectory : system.node? location ≠ some .directory) :
    (system.cut location).workingDirectory = system.workingDirectory := by
  cases stands : system.node? location with
  | none => rw [wellFormed.cut_of_vacant stands]
  | some node =>
      exact wellFormed.workingDirectory_cut_leaf stands (by simpa [stands] using noDirectory)

/-- Put content to a location, and take away what stands there then. -/
def withdraw (system : FileSystem) (location : Location) (content : Content) : FileSystem :=
  (system.deposit location content).cut location

theorem node?_withdraw_self (belowRoot : location ≠ []) :
    (system.withdraw location content).node? location = none := by
  rw [withdraw, node?_cut _ _ _ belowRoot, if_pos List.prefix_rfl]

theorem view?_withdraw_self (belowRoot : location ≠ []) :
    (system.withdraw location content).view? location = none := by
  rw [withdraw, view?_cut _ belowRoot, if_pos List.prefix_rfl]

section

variable (wellFormed : system.WellFormed) (noDirectory : system.node? location ≠ some .directory)

include wellFormed noDirectory

theorem workingDirectory_withdraw :
    (system.withdraw location content).workingDirectory = system.workingDirectory := by
  rw [← wellFormed.workingDirectory_cut_of_no_directory noDirectory]
  exact congrArg (Place.without location) (workingDirectory_deposit ..)

variable (belowRoot : location ≠ []) {other : Location} (differs : other ≠ location)

include belowRoot differs

/-- What is put somewhere and taken away again leaves all other nodes. -/
theorem node?_withdraw : (system.withdraw location content).node? other = system.node? other := by
  have kept : (system.deposit location content).node? other = system.node? other := by
    rw [node?_deposit belowRoot, if_neg fun here => differs here.2.symm]
  rw [← wellFormed.node?_cut_of_no_directory noDirectory differs, withdraw,
    node?_cut _ _ _ belowRoot, node?_cut _ _ _ belowRoot, kept]

/-- What was seen elsewhere is seen again, as long as no other name shows the content. -/
theorem view?_withdraw (sole : system.Sole location) :
    (system.withdraw location content).view? other = system.view? other := by
  by_cases inside : location <+: other
  · have missing : system.node? other = none := by
      rw [← wellFormed.node?_cut_of_no_directory noDirectory differs, node?_cut _ _ _ belowRoot,
        if_pos inside]
    rw [withdraw, view?_cut _ belowRoot, if_pos inside,
      wellFormed.filed.view?_eq_none_iff.mpr missing]
  · rw [withdraw, view?_cut _ belowRoot, if_neg inside]
    exact view?_deposit_of_apart wellFormed.filed belowRoot (sole.not_touches differs.symm)

end

section

variable (reaches : ∀ second, KeepsWays system second → second.Reaches path directory name)
  (noDirectory : system.node? (directory ++ [name]) ≠ some .directory)
  (noLink : ∀ target, system.node? (directory ++ [name]) ≠ some (.link target))

include reaches noDirectory noLink

omit reaches in
/-- A path that reaches no directory and no link means no directory. -/
theorem Reaches.isDirectory_eq_false (reached : system.Reaches path directory name) :
    system.isDirectory path = false := by
  cases found : system.node? (directory ++ [name]) with
  | none =>
      have ends := reached.resolve_vacant .target found
      simp [isDirectory, locate, Bind.bind, Except.bind, ends]
  | some node =>
      have leaf : ∀ target, node ≠ .link target := fun target => by
        simpa [found] using noLink target
      have ends := reached.resolve_occupied .target found (.inr leaf)
      simp [isDirectory, locate, Bind.bind, Except.bind, ends, noDirectory]

/-- What has been put to the end of a path is removed by the same path. -/
theorem removeFile_deposit :
    removeFile path (system.deposit (directory ++ [name]) content) =
      .ok () (system.withdraw (directory ++ [name]) content) := by
  have belowRoot : directory ++ [name] ≠ [] := by simp
  have keeps : KeepsWays system (system.deposit (directory ++ [name]) content) := by
    refine keepsWays_of_nodes (fun other differs => ?_) noDirectory noLink
      (workingDirectory_deposit ..)
    rw [node?_deposit belowRoot, if_neg fun here => differs here.2.symm]
  have stands : ∃ node, (system.deposit (directory ++ [name]) content).node?
      (directory ++ [name]) = some node ∧ node ≠ .directory := by
    rw [node?_deposit belowRoot]
    cases found : system.node? (directory ++ [name]) with
    | none => exact ⟨_, if_pos ⟨rfl, rfl⟩, by simp⟩
    | some node => exact ⟨node, if_neg (by simp), by simpa [found] using noDirectory⟩
  rcases stands with ⟨node, stands, leaf⟩
  exact removeFile_of_reaches (reaches _ keeps) stands leaf

/-- After that nothing stands at the path, and nothing else has changed. -/
theorem vacates_withdraw (wellFormed : system.WellFormed)
    (sole : system.Sole (directory ++ [name])) :
    Vacates path (directory ++ [name]) system (system.withdraw (directory ++ [name]) content) := by
  have belowRoot : directory ++ [name] ≠ [] := by simp
  have nodes : ∀ other, other ≠ directory ++ [name] →
      (system.withdraw (directory ++ [name]) content).node? other = system.node? other :=
    fun _ differs => node?_withdraw wellFormed noDirectory belowRoot differs
  have places : (system.withdraw (directory ++ [name]) content).workingDirectory =
      system.workingDirectory :=
    workingDirectory_withdraw wellFormed noDirectory
  have again := reaches _ (keepsWays_of_nodes nodes noDirectory noLink places)
  have arrives : Arrives _ path directory name :=
    ⟨fun _ => again, fun refused => absurd again.admissible refused⟩
  refine ⟨arrives.absent (node?_withdraw_self belowRoot), view?_withdraw_self belowRoot, ?_, ?_,
    places, ?_⟩
  · exact fun _ differs => view?_withdraw wellFormed noDirectory belowRoot differs sole
  · intro one other differs differsOther
    simp only [SameFile, nodes _ differs, nodes _ differsOther]
  · intro purpose other passesBy
    have same : ∀ entry ∈ system.lookedUp purpose other, ¬ directory ++ [name] <+: entry →
        (system.withdraw (directory ++ [name]) content).node? entry = system.node? entry := by
      intro entry _ outside
      refine nodes entry ?_
      rintro rfl
      exact outside List.prefix_rfl
    rw [(resolve_moved (moves_id belowRoot) places (seenAlike_of_passing_by same passesBy)).1]
    cases system.resolve purpose other with
    | error fault => rfl
    | ok spot => exact congrArg Except.ok spot.moved_id

end

end FileSystem

namespace Archive

variable {session last : Session} {source output : Path} {fault : Error}

/--
A run that fails either could not open its output and has changed nothing; or nothing stands at the
output any more, which was no directory, and everything else is as it was.
-/
theorem create_failed (wellFormed : session.disk.WellFormed) (noLink : ¬ session.disk.IsLink output)
    (sole : ∀ location, session.disk.resolve .entry output = .ok (.occupied (.live location)) →
      session.disk.Sole location)
    (failed : create source output session = .error fault last) :
    (∃ cause, openToWrite output session.disk = .error cause session.disk ∧ fault = .io cause ∧
        last.disk = session.disk) ∨
      (∃ handle opened, openToWrite output session.disk = .ok handle opened) ∧
        session.disk.isDirectory output = false ∧
        ∃ spot location, session.disk.resolve .creation output = .ok spot ∧
          spot.place = .live location ∧ Vacates output location session.disk last.disk := by
  rcases create_cases source output session with
    ⟨cause, refused, ended⟩ | ⟨handle, opened, log, ran, ⟨-, done⟩ | ⟨cause, -, discarded⟩⟩
  · cases ended.symm.trans failed
    exact .inl ⟨cause, refused, rfl, rfl⟩
  · cases done.symm.trans failed
  · cases discarded.symm.trans failed
    have opens := opens_of_ok ran
    rcases opens.exists_spot wellFormed with ⟨spot, ends, noDirectory⟩
    rcases reaches_of_creation wellFormed noLink ends noDirectory with
      ⟨directory, name, there, reaches⟩
    rw [there, nodeAt?_live] at noDirectory
    have reached := reaches _ (.refl _)
    have isNoLink : ∀ target, session.disk.node? (directory ++ [name]) ≠ some (.link target) :=
      fun target stands =>
        noLink ⟨_, target, reached.resolve_occupied .entry stands (.inl rfl), stands⟩
    have isSole : session.disk.Sole (directory ++ [name]) := by
      rintro other ⟨id, stands, standsOther⟩
      exact sole _ (reached.resolve_occupied .entry stands (.inl rfl)) other
        ⟨id, stands, standsOther⟩
    rcases opens.exists_deposit wellFormed (.archive (gatherTree opened handle source).entries) with
      ⟨_, location, again, same, written⟩
    rw [ends, Except.ok.injEq] at again
    rw [← again, there, Place.live.injEq] at same
    refine .inr ⟨⟨handle, opened, ran⟩, reached.isDirectory_eq_false noDirectory isNoLink,
      spot, _, ends, there, ?_⟩
    rw [archived, written, ← same, stateAfter, removeFile_deposit reaches noDirectory isNoLink]
    exact vacates_withdraw reaches noDirectory isNoLink wellFormed isSole

/-- A tree with a file whose name is no text behind one that can be archived, and an old output. -/
def unnamed : FileSystem :=
  stateAfter
    (do
      makeDirectory (.ofString "/tree")
      writeFile (.ofString "/tree/file") (.plain [0x78])
      writeFile ((Path.ofString "/tree").join ⟨[0xff]⟩) (.plain [0x79])
      writeFile (.ofString "/old") (.plain [0x7a]))
    FileSystem.empty

theorem wellFormed_unnamed : unnamed.WellFormed := by
  refine Keeps.bind (keeps_makeDirectory _) (fun _ => ?_) _ wellFormed_empty
  refine Keeps.bind (keeps_writeFile _ _) fun _ => ?_
  exact Keeps.bind (keeps_writeFile _ _) fun _ => keeps_writeFile _ _

theorem entry_unnamed :
    unnamed.resolve .entry (.ofString "/old") = .ok (.occupied (.live [Utf8.ofString "old"])) ∧
      unnamed.resolve .entry (.ofString "/new") = .ok (.vacant [] (Utf8.ofString "new")) ∧
      unnamed.resolve .entry (.ofString "/tree") =
        .ok (.occupied (.live [Utf8.ofString "tree"])) :=
  ⟨rfl, rfl, rfl⟩

/-- None of the three outputs is a link or has a second name. -/
theorem plain_unnamed {text : String} (known : text ∈ ["/old", "/new", "/tree"]) :
    ¬ unnamed.IsLink (.ofString text) ∧
      ∀ location, unnamed.resolve .entry (.ofString text) = .ok (.occupied (.live location)) →
        unnamed.Sole location := by
  have old : unnamed.node? [Utf8.ofString "old"] = some (.file 2) := rfl
  have tree : unnamed.node? [Utf8.ofString "tree"] = some .directory := rfl
  rcases entry_unnamed with ⟨oldEnds, newEnds, treeEnds⟩
  simp only [List.mem_cons, List.not_mem_nil, or_false] at known
  rcases known with rfl | rfl | rfl
  · refine ⟨?_, fun location ends => ?_⟩
    · rintro ⟨location, target, ends, stands⟩
      rw [oldEnds] at ends
      cases ends
      cases old.symm.trans stands
    · rw [oldEnds] at ends
      cases ends
      exact sole_of_below (by decide +kernel)
  · refine ⟨?_, fun location ends => ?_⟩
    · rintro ⟨location, target, ends, stands⟩
      rw [newEnds] at ends
      cases ends
    · rw [newEnds] at ends
      cases ends
  · refine ⟨?_, fun location ends => ?_⟩
    · rintro ⟨location, target, ends, stands⟩
      rw [treeEnds] at ends
      cases ends
      cases tree.symm.trans stands
    · rw [treeEnds] at ends
      cases ends
      rintro other ⟨id, stands, -⟩
      cases tree.symm.trans stands

/--
The old output is gone although a file could be archived, and so is a new output if there is no tree
at all; but nothing happens to a directory in the place of the output.
-/
theorem create_failed_unnamed :
    (∃ fault last, create (.ofString "/tree") (.ofString "/old") ⟨unnamed, []⟩ = .error fault last ∧
        (gatherTree unnamed .sink (.ofString "/tree")).entries.length = 1 ∧
        unnamed.contentOf (.ofString "/old") = .ok (.plain [0x7a]) ∧
        Vacates (.ofString "/old") [Utf8.ofString "old"] unnamed last.disk) ∧
      (∃ fault last,
        create (.ofString "/none") (.ofString "/new") ⟨unnamed, []⟩ = .error fault last ∧
        Vacates (.ofString "/new") [Utf8.ofString "new"] unnamed last.disk) ∧
      ∃ fault last,
        create (.ofString "/none") (.ofString "/tree") ⟨unnamed, []⟩ = .error fault last ∧
        last.disk = unnamed := by
  have wellFormed := wellFormed_unnamed
  refine ⟨?_, ?_, ?_⟩
  · have failed : ∃ fault last,
        create (.ofString "/tree") (.ofString "/old") ⟨unnamed, []⟩ = .error fault last :=
      ⟨_, _, rfl⟩
    have ran : ∃ handle opened, openToWrite (.ofString "/old") unnamed = .ok handle opened :=
      ⟨_, _, rfl⟩
    have leads : unnamed.resolve .creation (.ofString "/old") =
        .ok (.occupied (.live [Utf8.ofString "old"])) :=
      rfl
    rcases failed with ⟨fault, last, failed⟩
    rcases plain_unnamed (.head _) with ⟨noLink, sole⟩
    refine ⟨fault, last, failed, by decide +kernel, rfl, ?_⟩
    rcases create_failed wellFormed noLink sole failed with
      ⟨cause, refused, -⟩ | ⟨-, -, spot, location, ends, there, vacates⟩
    · rcases ran with ⟨handle, opened, ran⟩
      cases ran.symm.trans refused
    · cases leads.symm.trans ends
      cases there
      exact vacates
  · have failed : ∃ fault last,
        create (.ofString "/none") (.ofString "/new") ⟨unnamed, []⟩ = .error fault last :=
      ⟨_, _, rfl⟩
    have leads : unnamed.resolve .creation (.ofString "/new") =
        .ok (.vacant [] (Utf8.ofString "new")) :=
      rfl
    rcases failed with ⟨fault, last, failed⟩
    rcases plain_unnamed (.tail _ (.head _)) with ⟨noLink, sole⟩
    refine ⟨fault, last, failed, ?_⟩
    rcases create_failed wellFormed noLink sole failed with
      ⟨cause, refused, -⟩ | ⟨-, -, spot, location, ends, there, vacates⟩
    · cases (openToWrite_of_vacant leads).symm.trans refused
    · cases leads.symm.trans ends
      cases there
      exact vacates
  · have failed : ∃ fault last,
        create (.ofString "/none") (.ofString "/tree") ⟨unnamed, []⟩ = .error fault last :=
      ⟨_, _, rfl⟩
    have directory : unnamed.isDirectory (.ofString "/tree") = true := rfl
    rcases failed with ⟨fault, last, failed⟩
    rcases plain_unnamed (.tail _ (.tail _ (.head _))) with ⟨noLink, sole⟩
    refine ⟨fault, last, failed, ?_⟩
    rcases create_failed wellFormed noLink sole failed with
      ⟨cause, -, -, unchanged⟩ | ⟨-, noDirectory, -⟩
    · exact unchanged
    · cases directory.symm.trans noDirectory

end Archive

end BundlePacker
