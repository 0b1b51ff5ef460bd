import BundlePacker.Proofs.FileSystem.Files

/-!
# Making and removing trees

Where a path arrives, what stands there decides how a call ends.  A vacant name becomes a directory,
or a directory with a copy of a file in it; a tree is taken away whole; and a call that fails has
done nothing, but for a directory that a copy was to go to.
-/

namespace BundlePacker.FileSystem

variable {system : FileSystem} {directory : Location} {name : Name}

/-! ## Making directories -/

theorem makeDirectory_of_vacant {path : Path}
    (ends : system.resolve .entry path = .ok (.vacant directory name)) :
    makeDirectory path system = .ok () (system.put (directory ++ [name]) .directory) := by
  simp [makeDirectory, Call.alter, Bind.bind, Except.bind, ends]

theorem makeDirectory_of_error {path : Path} {fault : Fault}
    (fails : system.resolve .entry path = .error fault) :
    makeDirectory path system = .error fault system := by
  simp [makeDirectory, Call.alter, Bind.bind, Except.bind, fails]

theorem makeDirectory_of_occupied {path : Path} {place : Place}
    (ends : system.resolve .entry path = .ok (.occupied place)) :
    makeDirectory path system = .error (.refused .alreadyExists) system := by
  simp [makeDirectory, Call.alter, Bind.bind, Except.bind, ends]

/-- What stands above a path plays no part where the directory can be made or refused at once. -/
theorem makeDirectories_eq {path : Path} (nonempty : path.bytes ≠ [])
    (decided : ∀ next, makeDirectory path system ≠ .error (.refused .notFound) next) :
    makeDirectories path system = admitDirectory path system := by
  rw [makeDirectories, Path.ancestors, Path.ancestorsUpTo, makeDirectoryIn]
  -- The way through the directories above is excluded by what is `decided`.
  simp only [if_neg nonempty]

theorem isDirectory_of_error {path : Path} {fault : Fault}
    (fails : system.locate path = .error fault) : system.isDirectory path = false := by
  simp [isDirectory, fails]

theorem locate_of_error {path : Path} {fault : Fault}
    (fails : system.resolve .target path = .error fault) : system.locate path = .error fault := by
  simp [locate, Bind.bind, Except.bind, fails]

theorem makeDirectories_of_refuses {path : Path} (nonempty : path.bytes ≠ [])
    (refuses : system.Refuses path) :
    makeDirectories path system = .error (refusalOf path) system := by
  have failed := makeDirectory_of_error (refuses .entry)
  rw [makeDirectories_eq nonempty (by simp [failed])]
  simp [admitDirectory, failed, isDirectory_of_error (locate_of_error (refuses .target))]

theorem makeDirectories_of_vacant {path : Path} (reaches : system.Reaches path directory name)
    (vacant : system.node? (directory ++ [name]) = none) :
    makeDirectories path system = .ok () (system.put (directory ++ [name]) .directory) := by
  have made := makeDirectory_of_vacant (reaches.resolve_vacant .entry vacant)
  rw [makeDirectories_eq reaches.nonempty (by simp [made])]
  simp only [admitDirectory, made]

/-- A directory is made on a vacant name, or its path is refused. -/
theorem makeDirectories_cases {path : Path} (nonempty : path.bytes ≠ [])
    (arrives : system.Arrives path directory name)
    (vacant : system.node? (directory ++ [name]) = none) :
    (system.Reaches path directory name ∧
        makeDirectories path system = .ok () (system.put (directory ++ [name]) .directory)) ∨
      ¬ Admissible path name ∧ makeDirectories path system = .error (refusalOf path) system := by
  rcases arrives.cases with reaches | ⟨inadmissible, refuses⟩
  · exact .inl ⟨reaches, makeDirectories_of_vacant reaches vacant⟩
  · exact .inr ⟨inadmissible, makeDirectories_of_refuses nonempty refuses⟩

theorem isDirectory_of_absent {path : Path} (absent : system.pathExists path = false) :
    system.isDirectory path = false := by
  rw [pathExists] at absent
  split at absent
  · cases absent
  · next fails =>
    exact isDirectory_of_error fails

/-- What stands at a name but means nothing, such as a link to nowhere, is in the way. -/
theorem makeDirectories_of_absent {path : Path} (reaches : system.Reaches path directory name)
    (occupied : system.node? (directory ++ [name]) ≠ none)
    (absent : system.pathExists path = false) :
    makeDirectories path system = .error (.refused .alreadyExists) system := by
  rcases Option.ne_none_iff_exists'.mp occupied with ⟨node, found⟩
  have failed := makeDirectory_of_occupied (reaches.resolve_occupied .entry found (.inl rfl))
  rw [makeDirectories_eq reaches.nonempty (by simp [failed])]
  simp [admitDirectory, failed, isDirectory_of_absent absent]

theorem pathExists_of_refuses {path : Path} (refuses : system.Refuses path) :
    system.pathExists path = false := by
  simp [pathExists, locate_of_error (refuses .target)]

theorem pathExists_of_vacant {path : Path} (arrives : system.Arrives path directory name)
    (vacant : system.node? (directory ++ [name]) = none) :
    system.pathExists path = false := by
  rcases arrives.cases with reaches | ⟨-, refuses⟩
  · have ends := reaches.resolve_vacant .target vacant
    simp [pathExists, locate, Bind.bind, Except.bind, ends]
  · exact pathExists_of_refuses refuses

/--
A copy to a vacant name in a missing directory.  Where it fails the directory may be all that has
changed: no file can be read, or one of the two paths is refused.
-/
theorem copyFile_cases (wellFormed : system.WellFormed)
    (stands : system.node? directory = some .directory) {below : Name}
    (vacant : system.node? (directory ++ [below]) = none) {path above : Path}
    (parent : path.parent? = some above) (nonempty : above.bytes ≠ [])
    (arrivesAbove : system.Arrives above directory below)
    (arrives : IsName below →
      (system.put (directory ++ [below]) .directory).Arrives path (directory ++ [below]) name)
    (source : Path) :
    ((system.put (directory ++ [below]) .directory).Reaches path (directory ++ [below]) name ∧
        ∃ id file, (system.put (directory ++ [below]) .directory).openToRead source =
            .ok (.file id) ∧
          system.file? id = some file ∧
          copyFile source path system =
            .ok file.content.bytes.length
              ((system.put (directory ++ [below]) .directory).putFile
                (directory ++ [below] ++ [name]) (written file.mode file.content))) ∨
      ∃ fault next, copyFile source path system = .error fault next ∧
        (next = system ∨ next = system.put (directory ++ [below]) .directory) ∧
        (Admissible above below ∧
            Unread (system.put (directory ++ [below]) .directory) source fault ∨
          ¬ Admissible above below ∧ fault = refusalOf above ∨
          (∃ id, (system.put (directory ++ [below]) .directory).openToRead source =
              .ok (.file id)) ∧
            ¬ Admissible path name ∧ fault = refusalOf path) := by
  have absent := pathExists_of_vacant arrivesAbove vacant
  have prepared : prepareFor path system = makeDirectories above system := by
    rw [prepareFor, parent]
    simp only [ensureDirectory, absent, Bool.false_eq_true, if_false]
  rcases makeDirectories_cases nonempty arrivesAbove vacant with
    ⟨reaches, made⟩ | ⟨inadmissible, failed⟩
  · have isName : IsName below := reaches.isName
    have grown : (system.put (directory ++ [below]) .directory).WellFormed :=
      wellFormed.put stands vacant isName trivial
    have free : (system.put (directory ++ [below]) .directory).node?
        (directory ++ [below] ++ [name]) = none := by
      have inside : directory ++ [below] <+: directory ++ [below] ++ [name] :=
        List.prefix_append ..
      rw [node?_put _ _ _ _ (by simp), if_neg (by simp)]
      exact wellFormed.node?_below (by simp [vacant]) inside (by simp)
    rcases copyBytes_cases grown free (arrives isName) source with
      ⟨reachesCopy, id, file, reads, content, copied⟩ | ⟨fault, failed, cause⟩
    · left
      refine ⟨reachesCopy, id, file, reads, content, ?_⟩
      rw [copyFile, run_bind_of_ok (prepared.trans made), copied]
    · right
      refine ⟨fault, _, ?_, .inr rfl,
        cause.imp (fun unread => ⟨reaches.admissible, unread⟩) .inr⟩
      rw [copyFile, run_bind_of_ok (prepared.trans made), failed]
  · right
    refine ⟨refusalOf above, _, ?_, .inl rfl, .inr (.inl ⟨inadmissible, rfl⟩)⟩
    rw [copyFile, run_bind_of_error (prepared.trans failed)]

/-! ## Removing trees -/

theorem removeFile_of_reaches {path : Path} (reaches : system.Reaches path directory name)
    {node : Node} (stands : system.node? (directory ++ [name]) = some node)
    (leaf : node ≠ .directory) :
    removeFile path system = .ok () (system.cut (directory ++ [name])) := by
  have ends := reaches.resolve_occupied .entry stands (.inl rfl)
  simp [removeFile, Call.alter, Bind.bind, Except.bind, ends, stands, leaf, reaches.bare]

/-- Something that is no directory is removed, or nothing has changed. -/
theorem removeFile_cases {path : Path} (arrives : system.Arrives path directory name) :
    (∃ node, system.node? (directory ++ [name]) = some node ∧ node ≠ .directory ∧
        removeFile path system = .ok () (system.cut (directory ++ [name]))) ∨
      ∃ fault, removeFile path system = .error fault system := by
  rcases arrives.cases with reaches | ⟨-, refuses⟩
  · cases found : system.node? (directory ++ [name]) with
    | none =>
        right
        have ends := reaches.resolve_vacant .entry found
        exact ⟨.refused .notFound, by simp [removeFile, Call.alter, Bind.bind, Except.bind, ends]⟩
    | some node =>
        by_cases leaf : node = .directory
        · right
          have ends := reaches.resolve_occupied .entry found (.inl rfl)
          refine ⟨.refused .isDirectory, ?_⟩
          simp [removeFile, Call.alter, Bind.bind, Except.bind, ends, found, leaf]
        · exact .inl ⟨node, rfl, leaf, removeFile_of_reaches reaches found leaf⟩
  · right
    refine ⟨refusalOf path, ?_⟩
    simp [removeFile, Call.alter, Bind.bind, Except.bind, refuses .entry]

/--
Whether a path means a location below the root, whatever is to be done there, and is written with a
name at its end.
-/
structure Designates (system : FileSystem) (path : Path) (location : Location) : Prop where
  entry : system.resolve .entry path = .ok (.occupied (.live location))
  target : system.resolve .target path = .ok (.occupied (.live location))
  named : ∃ last, path.names.getLast? = some last ∧ last ≠ selfName ∧ last ≠ parentName

theorem Designates.locateEntry_eq {path : Path} {location : Location}
    (designates : system.Designates path location) :
    system.locateEntry path = .ok (.live location) := by
  rw [locateEntry]
  split
  · simp only [designates.target]
    rfl
  · simp only [designates.entry]
    rfl

theorem Designates.belowRoot {path : Path} {location : Location}
    (designates : system.Designates path location) : location ≠ [] := by
  rcases designates.named with ⟨last, ends, neSelf, neParent⟩
  exact resolve_entry_ne_root ends neSelf neParent designates.entry

theorem Reaches.designates {path : Path} (reaches : system.Reaches path directory name)
    (stands : system.node? (directory ++ [name]) = some .directory) :
    system.Designates path (directory ++ [name]) where
  entry := reaches.resolve_occupied .entry stands (.inl rfl)
  target := reaches.resolve_occupied .target stands (.inr (by simp))
  named := ⟨name, reaches.last, reaches.isName.ne_self, reaches.isName.ne_parent⟩

/-- A directory in which nothing stands is removed. -/
theorem removeDirectory_of_empty {path : Path} {location : Location}
    (designates : system.Designates path location)
    (stands : system.node? location = some .directory)
    (empty : ∀ other, location <+: other → other ≠ location → system.node? other = none) :
    removeDirectory path system = .ok () (system.cut location) := by
  rcases designates.named with ⟨last, ends, neSelf, neParent⟩
  have below : system.below location = [] := by
    rw [List.eq_nil_iff_forall_not_mem]
    rintro ⟨other, node⟩ member
    rcases mem_below_iff.mp member with ⟨found, inside, proper⟩
    rw [empty other inside proper] at found
    cases found
  simp [removeDirectory, Call.alter, Bind.bind, Except.bind, designates.entry, ends, neSelf,
    neParent, stands, below]

theorem removeTree_of_link {path target : Path} {place : Place}
    (entry : system.locateEntry path = .ok place)
    (link : system.nodeAt? place = some (.link target)) :
    removeTree path system = removeFile path system := by
  apply (run_bind_of_ok (observe_of_ok entry)).trans
  apply (run_bind_of_ok (run_get _)).trans
  simp only [link]

/-- Anything but a link is emptied before it is removed. -/
theorem removeTree_of_no_link {path : Path} {place : Place}
    (entry : system.locateEntry path = .ok place)
    (noLink : ∀ target, system.nodeAt? place ≠ some (.link target)) :
    removeTree path system =
      (emptyDirectory path >>= fun _ => dismissDirectory path) system := by
  apply (run_bind_of_ok (observe_of_ok entry)).trans
  apply (run_bind_of_ok (run_get _)).trans
  generalize system.nodeAt? place = found at noLink
  cases found with
  | none =>
      rfl
  | some node =>
      cases node with
      | link target =>
          exact absurd rfl (noLink target)
      | directory | file _ | special _ =>
          rfl

theorem removeTree_link {path target : Path} (reaches : system.Reaches path directory name)
    (stands : system.node? (directory ++ [name]) = some (.link target)) :
    removeTree path system = .ok () (system.cut (directory ++ [name])) := by
  rw [removeTree_of_link (reaches.locateEntry_eq stands) stands]
  exact removeFile_of_reaches reaches stands (by simp)

/-- A directory is removed with everything in it, if its path does not need what is in it. -/
theorem removeTree_of_designates {path : Path} {location : Location}
    (designates : system.Designates path location)
    (designatesEmpty : (system.clear location).Designates path location)
    (stands : system.node? location = some .directory) :
    removeTree path system = .ok () (system.cut location) := by
  have belowRoot := designates.belowRoot
  have found := locate_eq_ok_iff.mpr designates.target
  have emptied : emptyDirectory path system = .ok () (system.clear location) := by
    simp [emptyDirectory, Call.alter, Bind.bind, Except.bind, found, stands]
  have stays : (system.clear location).node? location = some .directory := by
    rw [node?_clear _ _ _ belowRoot, if_neg (by simp), stands]
  have empty : ∀ other, location <+: other → other ≠ location →
      (system.clear location).node? other = none := by
    intro other inside proper
    have otherBelow : other ≠ [] := by
      rintro rfl
      exact belowRoot (List.prefix_nil.mp inside)
    rw [node?_clear _ _ _ otherBelow, if_pos ⟨inside, proper⟩]
  have removed := removeDirectory_of_empty designatesEmpty stays empty
  rw [removeTree_of_no_link designates.locateEntry_eq (by simp [stands]), run_bind_of_ok emptied,
    dismissDirectory, removed, cut_clear belowRoot]

theorem removeTree_directory {path : Path} (reaches : system.Reaches path directory name)
    (reachesEmpty : (system.clear (directory ++ [name])).Reaches path directory name)
    (stands : system.node? (directory ++ [name]) = some .directory) :
    removeTree path system = .ok () (system.cut (directory ++ [name])) := by
  have stays : (system.clear (directory ++ [name])).node? (directory ++ [name]) =
      some .directory := by
    rw [node?_clear _ _ _ (by simp), if_neg (by simp), stands]
  exact removeTree_of_designates (reaches.designates stands) (reachesEmpty.designates stays) stands

/-- What stands at a location is taken away, or it is no tree and nothing has changed. -/
theorem removeTree_cases {path : Path} (reaches : system.Reaches path directory name)
    (reachesEmpty : system.node? (directory ++ [name]) = some .directory →
      (system.clear (directory ++ [name])).Reaches path directory name)
    {node : Node} (stands : system.node? (directory ++ [name]) = some node) :
    ((node = .directory ∨ ∃ target, node = .link target) ∧
        removeTree path system = .ok () (system.cut (directory ++ [name]))) ∨
      node ≠ .directory ∧ (∀ target, node ≠ .link target) ∧
        removeTree path system = .error (.refused .notDirectory) system := by
  have refused : node ≠ .directory → (∀ target, node ≠ .link target) →
      removeTree path system = .error (.refused .notDirectory) system := by
    intro noDirectory noLink
    have entry := reaches.locateEntry_eq stands
    have target := locate_eq_ok_iff.mpr (reaches.resolve_occupied .target stands (.inr noLink))
    have failed : emptyDirectory path system = .error (.refused .notDirectory) system := by
      simp [emptyDirectory, Call.alter, Bind.bind, Except.bind, target, stands, noDirectory]
    rw [removeTree_of_no_link entry (by simpa [stands] using noLink),
      run_bind_of_error failed]
  cases node with
  | directory =>
      exact .inl ⟨.inl rfl, removeTree_directory reaches (reachesEmpty stands) stands⟩
  | link target =>
      exact .inl ⟨.inr ⟨target, rfl⟩, removeTree_link reaches stands⟩
  | file id =>
      exact .inr ⟨by simp, by simp, refused (by simp) (by simp)⟩
  | special special =>
      exact .inr ⟨by simp, by simp, refused (by simp) (by simp)⟩

end BundlePacker.FileSystem
