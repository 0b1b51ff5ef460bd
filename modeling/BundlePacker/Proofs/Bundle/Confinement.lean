import Mathlib
import BundlePacker.Proofs.Bundle.Layout
import BundlePacker.Proofs.FileSystem.Confinement
import BundlePacker.Proofs.Preservation

/-!
# What a bundle touches

The version of a bundle is pasted into two paths as it is, and a version with slashes names
directories on the way to the staging directory and to the archive.  Both ways are the same up to
the last name.  Without links, a way that comes out at the base directory or below it, and that
comes by existing directories only where it is outside, keeps the whole run below the base
directory.

The main statement says so of the run as a whole and of every moment of it.  A version that climbs
out of the base directory shows that the condition is needed.
-/

namespace BundlePacker.Bundle

open FileSystem

variable {base executable path : Path} {version : String} {home top : Location}
  {disk : FileSystem}

/-! ## The names of a version -/

/-- The directories that a version names on the way to the staging directory and the archive. -/
def way (version : String) : List Name :=
  (Path.segments (Utf8.ofString (Descriptor.artifactName ++ "-" ++ version))).dropLast.filter
    fun segment => segment ≠ []

/-- A version without slashes names no directories. -/
theorem way_of_noSlash (noSlash : '/' ∉ version.toList) : way version = [] := by
  have clean : Path.slash ∉ Utf8.ofString (Descriptor.artifactName ++ "-" ++ version) := by
    intro member
    have inside := slash_mem_ofString member
    simp [Descriptor.artifactName, noSlash] at inside
  rw [way, Path.segments_of_not_mem clean]
  rfl

/-- Whether a path leads from the base by the way of a version and on through proper names. -/
def GoesBy (base : Path) (version : String) (path : Path) : Prop :=
  path.isAbsolute = base.isAbsolute ∧
    ∃ last rest, path.names = base.names ++ (way version ++ last :: rest) ∧
      ∀ name ∈ last :: rest, name ≠ selfName ∧ name ≠ parentName

theorem isAbsolute_ofString (text : String) :
    Path.isAbsolute (.ofString (Descriptor.artifactName ++ "-" ++ text)) = false := by
  have begins : Utf8.ofString Descriptor.artifactName = 0x73 :: [0x75, 0x72] := rfl
  simp [Path.isAbsolute, Path.ofString, Utf8.ofString_append, begins, Path.slash]

/-- What is written after a version and has no slash belongs to a last name of its own. -/
theorem names_ofString {ending : String} (clean : Path.slash ∉ Utf8.ofString ending)
    (long : 2 < (Utf8.ofString ending).length) :
    ∃ piece, Path.names (.ofString (Descriptor.artifactName ++ "-" ++ (version ++ ending))) =
        way version ++ [piece ++ Utf8.ofString ending] ∧
      piece ++ Utf8.ofString ending ≠ selfName ∧ piece ++ Utf8.ofString ending ≠ parentName := by
  rcases @Path.segments_append (Utf8.ofString (Descriptor.artifactName ++ "-" ++ version)) _ clean
    with ⟨before, last, whole, longer⟩
  have size : 2 < (last ++ Utf8.ofString ending).length := by
    rw [List.length_append]
    omega
  have proper : ∀ name : Name, name.length ≤ 2 → last ++ Utf8.ofString ending ≠ name := by
    rintro name short rfl
    omega
  refine ⟨last, ?_, proper selfName (by decide), proper parentName (by decide)⟩
  have joined : Utf8.ofString (Descriptor.artifactName ++ "-" ++ (version ++ ending)) =
      Utf8.ofString (Descriptor.artifactName ++ "-" ++ version) ++ Utf8.ofString ending := by
    rw [← String.append_assoc, Utf8.ofString_append]
  have kept : [last ++ Utf8.ofString ending].filter (fun segment => segment ≠ []) =
      [last ++ Utf8.ofString ending] :=
    List.filter_cons_of_pos (decide_eq_true (proper [] (by simp)))
  rw [Path.names, Path.ofString, joined, longer, way, whole, List.dropLast_concat,
    List.filter_append, kept]

theorem goesBy_join (nonempty : base.bytes ≠ []) {ending : String}
    (clean : Path.slash ∉ Utf8.ofString ending) (long : 2 < (Utf8.ofString ending).length) :
    GoesBy base version
      (base.join (.ofString (Descriptor.artifactName ++ "-" ++ (version ++ ending)))) := by
  have relative := isAbsolute_ofString (version ++ ending)
  rcases @names_ofString version _ clean long with ⟨piece, names, proper⟩
  refine ⟨Path.isAbsolute_join nonempty relative, _, [], ?_, by simpa using proper⟩
  rw [Path.names_join nonempty relative, names]

theorem stagingName_eq (version : String) :
    stagingName version =
      Descriptor.artifactName ++ "-" ++ (version ++ (".artifactbundle" ++ "_bundle")) := by
  simp [stagingName, name, String.append_assoc]

theorem archiveName_eq (version : String) :
    archiveName version =
      Descriptor.artifactName ++ "-" ++ (version ++ (".artifactbundle" ++ ".zip")) := by
  simp [archiveName, name, String.append_assoc]

theorem stagingPath_ne_nil (nonempty : base.bytes ≠ []) (version : String) :
    (stagingPath base version).bytes ≠ [] := by
  rw [stagingPath, stagingName_eq]
  exact Path.join_ne_nil nonempty (isAbsolute_ofString _)

theorem goesBy_stagingPath (nonempty : base.bytes ≠ []) (version : String) :
    GoesBy base version (stagingPath base version) := by
  rw [stagingPath, stagingName_eq]
  exact goesBy_join nonempty (by decide) (by decide)

theorem goesBy_archivePath (nonempty : base.bytes ≠ []) (version : String) :
    GoesBy base version (archivePath base version) := by
  rw [archivePath, archiveName_eq]
  exact goesBy_join nonempty (by decide) (by decide)

/-- What is joined to a path on the way is on the way. -/
theorem GoesBy.join (goes : GoesBy base version path) (nonempty : path.bytes ≠ [])
    {inner : Path} (relative : inner.isAbsolute = false)
    (proper : ∀ name ∈ inner.names, name ≠ selfName ∧ name ≠ parentName) :
    GoesBy base version (path.join inner) := by
  rcases goes with ⟨starts, last, rest, names, ownProper⟩
  refine ⟨(Path.isAbsolute_join nonempty relative).trans starts, last, rest ++ inner.names, ?_, ?_⟩
  · rw [Path.names_join nonempty relative, names]
    simp
  · intro name member
    rw [← List.cons_append] at member
    rcases List.mem_append.mp member with early | late
    · exact ownProper name early
    · exact proper name late

/-! ## A base directory that a run does not leave -/

/--
Whether the way of a version, on a disk without links, comes out at a base directory or below it and
comes by existing directories where it is outside.
-/
structure Encloses (disk : FileSystem) (base : Path) (top : Location) (version : String) :
    Prop where
  linkFree : disk.LinkFree
  leads : disk.locate base = .ok (.live top)
  stands : disk.node? top = some .directory
  known : ∀ before, before <+: way version →
    top <+: lexical top before ∨ disk.node? (lexical top before) = some .directory
  within : top <+: lexical top (way version)

theorem lexical_of_proper {names : List Name}
    (proper : ∀ name ∈ names, name ≠ selfName ∧ name ≠ parentName) (here : Location) :
    lexical here names = here ++ names := by
  induction names generalizing here with
  | nil =>
      rw [lexical, List.append_nil]
  | cons name rest hypothesis =>
      rcases proper name (List.mem_cons_self ..) with ⟨neSelf, neParent⟩
      rw [lexical_name neSelf neParent,
        hypothesis fun other member => proper other (List.mem_cons_of_mem _ member)]
      simp

/-- A base directory encloses every version that has no slashes. -/
theorem Encloses.of_noSlash (linkFree : disk.LinkFree) (leads : disk.locate base = .ok (.live top))
    (stands : disk.node? top = some .directory) (noSlash : '/' ∉ version.toList) :
    Encloses disk base top version where
  linkFree := linkFree
  leads := leads
  stands := stands
  known before part_of := by
    rw [way_of_noSlash noSlash, List.prefix_nil] at part_of
    rw [part_of, lexical]
    exact .inl List.prefix_rfl
  within := by
    rw [way_of_noSlash noSlash, lexical]

namespace Encloses

section

variable (encloses : Encloses disk base top version)

include encloses

theorem base_ne_nil : base.bytes ≠ [] := by
  intro empty
  have ends := locate_eq_ok_iff.mp encloses.leads
  rcases resolve_eq_ok_iff.mp ends with ⟨-, here, begins, -⟩
  simp [start, empty] at begins

/-- Everything that the way and proper names after it lead to lies below the base directory. -/
theorem inside_lexical {last : Name} {rest : List Name}
    (proper : ∀ name ∈ last :: rest, name ≠ selfName ∧ name ≠ parentName) :
    Inside top (lexical top (way version ++ last :: rest)) := by
  rw [lexical_append, lexical_of_proper proper, List.append_cons]
  exact (inside_concat encloses.within last).below (List.prefix_append ..)

/-- A location that a part of the way leads to lies below the base directory or is a directory. -/
theorem clear_of_known {part : List Name} (part_of : part <+: way version) :
    Inside top (lexical top part) ∨ disk.node? (lexical top part) = some .directory := by
  rcases encloses.known part part_of with below | directory
  · by_cases same : lexical top part = top
    · right
      rw [same]
      exact encloses.stands
    · exact .inl ⟨below, same⟩
  · exact .inr directory

variable (stands : disk.workingDirectory.StandsFor home)

include stands

theorem destination_base : destination home base = top := by
  have reached := standsFor_of_resolve encloses.linkFree stands
    (locate_eq_ok_iff.mp encloses.leads)
  exact Eq.symm reached

/-- A path on the way leads below the base, and comes by nothing that is missing outside. -/
theorem of_goesBy (goes : GoesBy base version path) :
    Inside top (destination home path) ∧
      ClearWay top disk (origin home path) path.names := by
  rcases goes with ⟨starts, last, rest, names, proper⟩
  have begins : origin home path = origin home base := by
    rw [origin, origin, starts]
  have reached : lexical (origin home base) base.names = top :=
    encloses.destination_base stands
  refine ⟨?_, ?_⟩
  · rw [destination, begins, names, lexical_append, reached]
    exact encloses.inside_lexical proper
  · rw [begins, names]
    rintro before name ⟨after, shape⟩ neSelf neParent
    -- The name is one of the base, one of the way, or one behind the way.
    rcases List.append_eq_append_iff.mp shape with ⟨more, inBase, -⟩ | ⟨more, behind, further⟩
    · right
      have parts : base.names = before ++ name :: more := by simpa using inBase
      exact directory_on_way_of_resolve encloses.linkFree stands
        (locate_eq_ok_iff.mp encloses.leads) encloses.stands parts neSelf neParent
    · rw [behind, lexical_append, reached]
      rcases List.append_eq_append_iff.mp further with ⟨tail, rfl, own⟩ | ⟨tail, inWay, -⟩
      · cases tail with
        | nil =>
            rw [List.append_nil]
            exact encloses.clear_of_known List.prefix_rfl
        | cons first others =>
            left
            apply encloses.inside_lexical
            intro other member
            exact proper other (own ▸ List.mem_append_left _ member)
      · exact encloses.clear_of_known ⟨tail, inWay.symm⟩

/-- Every call with which a bundle is made keeps to the base directory. -/
theorem keptByCalls :
    KeptByCalls (Contained home top disk) ⟨stagingPath base version⟩
      (archivePath base version) := by
  have nonempty := encloses.base_ne_nil
  have staging := goesBy_stagingPath nonempty version
  have archive := goesBy_archivePath nonempty version
  have stagingNonempty := stagingPath_ne_nil nonempty version
  have executable : GoesBy base version
      (StagingDirectory.executablePath ⟨stagingPath base version⟩) :=
    staging.join stagingNonempty (by decide) (by decide)
  have descriptor : GoesBy base version
      (StagingDirectory.descriptorPath ⟨stagingPath base version⟩) :=
    staging.join stagingNonempty (by decide) (by decide)
  have inside : ∀ {path}, GoesBy base version path → Inside top (destination home path) :=
    fun goes => (encloses.of_goesBy stands goes).1
  exact
    { making := Contained.keptByMaking (.refl _) (encloses.of_goesBy stands staging).2
      removing := Contained.keptByRemoving (inside staging)
      furnishing := fun directory parent =>
        Contained.keptByMaking (Path.above_of_parent? parent)
          (encloses.of_goesBy stands executable).2
      copying := Contained.keptByWriting (inside executable)
      describing := Contained.keptByWriting (inside descriptor)
      archiving := Contained.keptByWriting (inside archive)
      discarding := keeps_contained_removeFile (inside archive) }

end

end Encloses

/-! ## Runs -/

/-- How far a run has come when it is looked at. -/
inductive Moment where
  /-- The executable has been looked at. -/
  | checked
  /-- An older staging directory is gone. -/
  | cleared
  /-- The staging directory is there. -/
  | staged
  /-- The executable has been copied. -/
  | supplied
  /-- The descriptor has been written. -/
  | described
  /-- The archive has been opened. -/
  | opened
  /-- The archive is being written, and this is what it holds by now. -/
  | writing (content : Content)
  /-- The archive has been written. -/
  | archived

/-- A run up to the point where the staging directory is there, with what comes next. -/
def afterStaging (base executable : Path) (version : String)
    (next : StagingDirectory → Job Unit) : Job Unit := do
  checkExecutable executable
  let staging ← StagingDirectory.create (stagingPath base version)
  next staging

/-- A run up to a moment. -/
def upTo (base executable : Path) (version : String) : Moment → Job Unit
  | .checked => checkExecutable executable
  | .cleared => do
    checkExecutable executable
    let session ← get
    if session.disk.pathExists (stagingPath base version) then
      Job.call (removeTree (stagingPath base version))
  | .staged => afterStaging base executable version fun _ => pure ()
  | .supplied =>
    afterStaging base executable version fun staging => do
      let _ ← staging.addExecutable executable
  | .described =>
    afterStaging base executable version fun staging => do
      let _ ← staging.addExecutable executable
      let _ ← staging.addDescriptor (.forExecutable version)
  | .opened =>
    afterStaging base executable version fun staging => do
      let _ ← staging.addExecutable executable
      let _ ← staging.addDescriptor (.forExecutable version)
      let _ ← Job.call (openToWrite (archivePath base version))
  | .writing content =>
    afterStaging base executable version fun staging => do
      let _ ← staging.addExecutable executable
      let _ ← staging.addDescriptor (.forExecutable version)
      let handle ← Job.call (openToWrite (archivePath base version))
      Job.call (write handle content)
  | .archived =>
    afterStaging base executable version fun staging => do
      let _ ← assemble staging executable (archivePath base version) version

/-- What all calls keep is kept up to every moment. -/
theorem KeptByCalls.upTo {property : FileSystem → Prop}
    (kept : KeptByCalls property ⟨stagingPath base version⟩ (archivePath base version))
    (executable : Path) (moment : Moment) :
    Keeps (Session.OnDisk property) (upTo base executable version moment) := by
  have checks : Keeps (Session.OnDisk property) (checkExecutable executable) :=
    keeps_checkExecutable executable
  have after : ∀ next : StagingDirectory → Job Unit,
      Keeps (Session.OnDisk property) (next ⟨stagingPath base version⟩) →
      Keeps (Session.OnDisk property) (afterStaging base executable version next) := by
    intro next nextKeeps
    refine Keeps.bind checks fun _ => ?_
    refine Keeps.bind_of_ok (StagingDirectory.keeps_create kept.making kept.removing) ?_
    intro session staging middle holds made
    have own := StagingDirectory.eq_of_create made
    subst own
    exact nextKeeps
  have supplies := StagingDirectory.keeps_addExecutable kept.furnishing kept.copying executable
  have describes := StagingDirectory.keeps_addDescriptor kept.describing (.forExecutable version)
  cases moment with
  | checked =>
      exact checks
  | cleared =>
      refine Keeps.bind checks fun _ => Keeps.bind Keeps.get fun session => ?_
      split
      · exact Job.keeps_call kept.removing.removeTree
      · exact Keeps.pure _
  | staged =>
      exact after _ (Keeps.pure _)
  | supplied =>
      exact after _ (Keeps.bind supplies fun _ => Keeps.pure _)
  | described =>
      exact after _ (Keeps.bind supplies fun _ => Keeps.bind describes fun _ => Keeps.pure _)
  | opened =>
      exact after _ (Keeps.bind supplies fun _ => Keeps.bind describes fun _ =>
        Keeps.bind (Job.keeps_call kept.archiving.opens) fun _ => Keeps.pure _)
  | writing content =>
      refine after _ (Keeps.bind supplies fun _ => Keeps.bind describes fun _ => ?_)
      refine Keeps.bind_of_ok (Job.keeps_call kept.archiving.opens) ?_
      intro session handle middle holds opened
      rcases Job.ok_of_call opened with ⟨disk, ran⟩
      exact Job.keeps_call (kept.archiving.writes _ handle disk holds ran content)
  | archived =>
      exact after _ (Keeps.bind (kept.assemble executable version) fun _ => Keeps.pure _)

/--
A run does not leave a base directory that encloses the way of its version: nothing outside is made,
written to or removed, neither in the end nor at any moment before.
-/
theorem create_confinedTo (session : Session)
    (encloses : Encloses session.disk base top version) (executable : Path) :
    ConfinedTo top session.disk (stateAfter (create base executable version) session).disk ∧
      ∀ moment, ConfinedTo top session.disk
        (stateAfter (upTo base executable version moment) session).disk := by
  rcases Place.StandsFor.exists_location session.disk.workingDirectory with ⟨home, stands⟩
  have kept := encloses.keptByCalls stands
  have begins : Session.OnDisk (Contained home top session.disk) session :=
    .refl encloses.linkFree stands
  exact ⟨(kept.create executable session begins).confined,
    fun moment => (kept.upTo executable moment session begins).confined⟩

/-! ## Runs on a small file system -/

/-- A file system with an executable in the root, and a base directory. -/
def workplace : FileSystem :=
  stateAfter
    (do
      writeFile (.ofString "/sur") (.plain [0x78])
      makeDirectory (.ofString "/b"))
    FileSystem.empty

theorem linkFree_workplace : workplace.LinkFree := by
  have begins : Contained [] [] FileSystem.empty FileSystem.empty := by
    refine .refl ?_ rfl
    intro location target
    simp only [FileSystem.empty, node?]
    split <;> simp
  have wrote : KeptByWriting (Contained [] [] FileSystem.empty) (.ofString "/sur") :=
    Contained.keptByWriting (by decide)
  have made : Keeps (Contained [] [] FileSystem.empty) (makeDirectory (.ofString "/b")) :=
    keeps_contained_makeDirectory (clearWay_root _ _ _)
  exact (Keeps.bind (wrote.writeFile _) (fun _ => made) _ begins).linkFree

/-- A version that goes down and up again comes out at the base directory. -/
theorem encloses_workplace :
    Encloses workplace (.ofString "/b") [Utf8.ofString "b"] "x/../y" := by
  have shape : way "x/../y" = [Utf8.ofString "sur-x", Utf8.ofString ".."] := by
    decide
  refine ⟨linkFree_workplace, by decide, by decide, ?_, ?_⟩
  · intro before inner
    rw [shape, ← List.mem_inits] at inner
    revert before
    decide
  · rw [shape]
    decide

theorem create_confinedTo_workplace :
    ConfinedTo [Utf8.ofString "b"] workplace
      (stateAfter (create (.ofString "/b") (.ofString "/sur") "x/../y") ⟨workplace, []⟩).disk :=
  (create_confinedTo ⟨workplace, []⟩ encloses_workplace (.ofString "/sur")).1

set_option maxRecDepth 8000 in
/-- A version that climbs out of the base directory puts the archive outside. -/
theorem create_not_confinedTo :
    workplace.LinkFree ∧
      workplace.locate (.ofString "/b") = .ok (.live [Utf8.ofString "b"]) ∧
      workplace.node? [Utf8.ofString "b"] = some .directory ∧
      ¬ ConfinedTo [Utf8.ofString "b"] workplace
        (stateAfter (create (.ofString "/b") (.ofString "/sur") "/../../x")
          ⟨workplace, []⟩).disk := by
  refine ⟨linkFree_workplace, by decide, by decide, ?_⟩
  intro confined
  have outside : ¬ Inside [Utf8.ofString "b"] [Utf8.ofString "x.artifactbundle.zip"] := by
    decide
  have same := confined.nodes _ outside
  have before : workplace.node? [Utf8.ofString "x.artifactbundle.zip"] = none := by
    decide
  have after : (stateAfter (create (.ofString "/b") (.ofString "/sur") "/../../x")
      ⟨workplace, []⟩).disk.node? [Utf8.ofString "x.artifactbundle.zip"] = some (.file 3) := by
    rcases Descriptor.exists_ofString_render (.forExecutable "/../../x") with ⟨bytes, text⟩
    simp only [create, assemble, StagingDirectory.addDescriptor_eq, text]
    cbv
  rw [before, after] at same
  cases same

end BundlePacker.Bundle
