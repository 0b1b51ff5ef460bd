import Mathlib
import BundlePacker.Proofs.Bundle.Contents
import BundlePacker.Proofs.Bundle.Effect

/-!
# What a run comes to

A run lays out a tree, looks at it, opens a file and takes the tree away again.  All that remains of
this is an answer and an effect, and both are decided at the beginning: by what the path of the
executable shows, by what stands at the two locations of the version, and by the length of the base
directory's path.  They make up the verdict on a run, which is read off the file system before it.

The main statement says that a run ends as its verdict says, if the path of the executable passes by
the staging directory and the archive is no link.  Whatever runs have to do with each other follows
from the verdicts on them.
-/

namespace BundlePacker.Bundle

open FileSystem
open StagingDirectory
open Archive (Entry archived)

/-- What an action answers, whatever state it leaves. -/
def answer {ε σ α : Type} (action : EStateM ε σ α) (state : σ) : Except ε α :=
  match action state with
  | .ok value _ => .ok value
  | .error fault _ => .error fault

theorem answer_eq_ok_iff {ε σ α : Type} {action : EStateM ε σ α} {state : σ} {value : α} :
    answer action state = .ok value ↔ ∃ next, action state = .ok value next := by
  rw [answer]
  cases action state with
  | ok other next => simp
  | error fault next => simp

theorem answer_eq_error_iff {ε σ α : Type} {action : EStateM ε σ α} {state : σ} {fault : ε} :
    answer action state = .error fault ↔ ∃ next, action state = .error fault next := by
  rw [answer]
  cases action state with
  | ok value next => simp
  | error other next => simp

/-! ## Verdicts -/

/-- Why no staging directory can be made for a version, if none can. -/
def obstacle (disk : FileSystem) (base : Location) (version : String) : Option Fault :=
  if Addressable (stagingLocation base version) then
    match disk.view? (stagingLocation base version) with
    | none | some .directory => none
    | some (.link _) =>
      if disk.pathExists (stagingPath (pathOf base) version) then none
      else some (.refused .alreadyExists)
    | some _ => some (.refused .notDirectory)
  else some (refusalOf (stagingPath (pathOf base) version))

/-- Why a file can not be bundled once the staging directory is there, if it can not. -/
def hindrance (disk : FileSystem) (base : Location) (version : String) (file : File) :
    Option Fault :=
  if ¬ Addressable (stagingLocation base version ++ [binName]) then some (.refused .nameTooLong)
  else if file.isReadable = false then some (.refused .accessDenied)
  else if ¬ Addressable (stagingLocation base version ++ [descriptorName]) then
    some (.refused .nameTooLong)
  else denial (disk.view? (archiveLocation base version))

/-- The verdict on a run: what it answers, and its effect. -/
def verdict (disk : FileSystem) (base : Location) (executable : Path) (version : String) :
    Except Error Path × Effect :=
  match disk.shown executable with
  | .error cause => (.error (.executableNotFound executable cause), .nothing)
  | .ok (some (.file file)) =>
    match obstacle disk base version with
    | some cause => (.error (.io cause), .nothing)
    | none =>
      match hindrance disk base version file with
      | some cause => (.error (.io cause), .cleared)
      | none => (.ok (archivePath (pathOf base) version), .delivered (entriesOf file version))
  | .ok _ => (.error (.notAFile executable), .nothing)

variable {session : Session} {disk state : FileSystem} {base : Location} {executable : Path}
  {version : String} {file : File} {cause : Fault}

section

variable (shows : disk.shown executable = .ok (some (.file file)))

include shows

theorem verdict_of_obstacle (obstructed : obstacle disk base version = some cause) :
    verdict disk base executable version = (.error (.io cause), .nothing) := by
  rw [verdict, shows]
  simp only [obstructed]

variable (free : obstacle disk base version = none)

include free

theorem verdict_of_hindrance (hindered : hindrance disk base version file = some cause) :
    verdict disk base executable version = (.error (.io cause), .cleared) := by
  rw [verdict, shows]
  simp only [free, hindered]

end

/-- Where the longest path in the staging directory is taken, so are the others. -/
theorem addressable_binLocation
    (fits : Addressable (stagingLocation base version ++ [descriptorName])) :
    Addressable (stagingLocation base version ++ [binName]) :=
  fits.of_shorter (by decide) (by decide)

theorem hindrance_eq_none_iff :
    hindrance disk base version file = none ↔
      file.isReadable = true ∧ Addressable (stagingLocation base version ++ [descriptorName]) ∧
        denial (disk.view? (archiveLocation base version)) = none := by
  by_cases fits : Addressable (stagingLocation base version ++ [descriptorName])
  · have above := addressable_binLocation fits
    cases readable : file.isReadable <;> simp [hindrance, fits, above, readable]
  · simp only [hindrance, fits, not_false_eq_true, if_true, false_and, and_false, iff_false]
    split
    · simp
    · split <;> simp

/-- Whether a run delivers an archive of a file. -/
structure Delivers (disk : FileSystem) (base : Location) (executable : Path) (version : String)
    (file : File) : Prop where
  shows : disk.shown executable = .ok (some (.file file))
  free : obstacle disk base version = none
  readable : file.isReadable = true
  fits : Addressable (stagingLocation base version ++ [descriptorName])
  admits : denial (disk.view? (archiveLocation base version)) = none

theorem Delivers.verdict_eq (delivers : Delivers disk base executable version file) :
    verdict disk base executable version =
      (.ok (archivePath (pathOf base) version), .delivered (entriesOf file version)) := by
  have unhindered := hindrance_eq_none_iff.mpr
    ⟨delivers.readable, delivers.fits, delivers.admits⟩
  rw [verdict, delivers.shows]
  simp only [delivers.free, unhindered]

/-- A run that succeeds has delivered. -/
theorem exists_delivers_of_ok {path : Path}
    (made : (verdict disk base executable version).1 = .ok path) :
    ∃ file, Delivers disk base executable version file := by
  rw [verdict] at made
  split at made
  · cases made
  · next file shows =>
    split at made
    · cases made
    next free =>
    split at made
    · cases made
    next unhindered =>
    rcases hindrance_eq_none_iff.mp unhindered with ⟨readable, fits, admits⟩
    exact ⟨file, shows, free, readable, fits, admits⟩
  · cases made

/-- A run that makes its staging directory takes away what stood there. -/
theorem effect_ne_nothing (shows : disk.shown executable = .ok (some (.file file)))
    (free : obstacle disk base version = none) :
    (verdict disk base executable version).2 ≠ .nothing := by
  rw [verdict, shows]
  cases hindered : hindrance disk base version file <;> simp [free, hindered]

/-! ## What the verdict depends on -/

theorem obstacle_of_vacant (addressable : Addressable (stagingLocation base version))
    (vacant : disk.view? (stagingLocation base version) = none) :
    obstacle disk base version = none := by
  rw [obstacle, if_pos addressable, vacant]

theorem addressable_of_free (free : obstacle disk base version = none) :
    Addressable (stagingLocation base version) := by
  apply Classical.byContradiction
  intro refused
  rw [obstacle, if_neg refused] at free
  cases free

/-- What is no link is in the way, or not, by what is seen there. -/
theorem obstacle_congr {first second : FileSystem}
    (views : first.view? (stagingLocation base version) =
      second.view? (stagingLocation base version))
    (noLink : ∀ target, first.node? (stagingLocation base version) ≠ some (.link target)) :
    obstacle first base version = obstacle second base version := by
  rw [obstacle, obstacle, ← views]
  split
  · split
    · rfl
    · rfl
    · next target seen => exact absurd (view?_eq_link_iff.mp seen) (noLink target)
    · rfl
  · rfl

/-- The verdict depends on what the executable's path shows, on obstacles and on the archive. -/
theorem verdict_congr {first second : FileSystem}
    (shows : first.shown executable = second.shown executable)
    (obstacles : obstacle first base version = obstacle second base version)
    (archives : first.view? (archiveLocation base version) =
      second.view? (archiveLocation base version)) :
    verdict first base executable version = verdict second base executable version := by
  simp only [verdict, hindrance, shows, obstacles, archives]

/-- A run comes to the same in file systems that look alike. -/
theorem verdict_of_alike {first second : FileSystem} (alike : Alike first second)
    (filed : first.Filed) (filedSecond : second.Filed) :
    verdict first base executable version = verdict second base executable version := by
  refine verdict_congr (alike.shown_eq filed filedSecond executable) ?_ (alike.views _)
  simp only [obstacle, alike.views, alike.pathExists_eq filed filedSecond]

/-! ## What a run meets -/

theorem shown_of_meansFile (wellFormed : disk.WellFormed) (meansFile : MeansFile disk executable) :
    ∃ file, disk.shown executable = .ok (some (.file file)) := by
  rcases meansFile with ⟨place, id, found, isFile⟩
  rcases wellFormed.file?_of_nodeAt? isFile with ⟨-, file, content⟩
  refine ⟨file, ?_⟩
  rw [shown, found, Except.map, viewAt?_eq_file_iff.mpr ⟨id, isFile, content⟩]

theorem verdict_of_unfit {fault : Error} (unfit : Unfit disk executable fault) :
    verdict disk base executable version = (.error fault, .nothing) := by
  cases unfit with
  | missing lost =>
      rw [verdict, shown, lost]
      rfl
  | @irregular place found noFile =>
      have other : ∀ file, disk.viewAt? place ≠ some (.file file) := by
        intro file seen
        rcases viewAt?_eq_file_iff.mp seen with ⟨id, isFile, -⟩
        exact noFile id isFile
      rw [verdict, shown, found, Except.map]
      split
      · next impossible => cases impossible
      · next file seen => exact absurd (Except.ok.inj seen) (other file)
      · rfl

/-- Where the system takes the path of the staging directory, it takes that of the archive. -/
theorem addressable_archiveLocation (noSlash : '/' ∉ version.toList)
    (addressable : Addressable (stagingLocation base version)) :
    Addressable (archiveLocation base version) := by
  have isName := isName_stagingName addressable
  have solid := isSegment_archiveName noSlash
  have shorter : (Utf8.ofString (archiveName version)).length ≤
      (Utf8.ofString (stagingName version)).length := by
    rw [archiveName, stagingName, Utf8.ofString_append, Utf8.ofString_append, List.length_append,
      List.length_append]
    exact Nat.add_le_add_left (by decide) _
  have clean : (0 : UInt8) ∉ Utf8.ofString (archiveName version) := by
    rw [archiveName, Utf8.ofString_append, List.mem_append, not_or]
    refine ⟨fun inside => isName.no_zero ?_, by decide⟩
    rw [stagingName, Utf8.ofString_append]
    exact List.mem_append_left _ inside
  exact addressable.of_shorter ⟨solid.nonempty, solid.noSlash, clean, solid.neSelf, solid.neParent,
    shorter.trans isName.short⟩ shorter

/-- A file system in which a bundle is laid out shows the same outside of it. -/
theorem view?_of_staged (wellFormed : disk.WellFormed)
    (staged : Staged disk (stagingLocation base version) state)
    {other : Location} (outside : ¬ stagingLocation base version <+: other) :
    state.view? other = disk.view? other := by
  have belowRoot := stagingLocation_ne_nil base version
  have same := (staged.alike_cut wellFormed belowRoot).views other
  rwa [view?_cut _ belowRoot, view?_cut _ belowRoot, if_neg outside, if_neg outside] at same

section

variable (wellFormed : disk.WellFormed) (stands : disk.node? base = some .directory)
  (noSlash : '/' ∉ version.toList)

include wellFormed stands noSlash

theorem admissible_descriptorPath_iff (addressable : Addressable (stagingLocation base version)) :
    Admissible (descriptorPath ⟨stagingPath (pathOf base) version⟩) descriptorName ↔
      Addressable (stagingLocation base version ++ [descriptorName]) := by
  rw [descriptorPath_stagingPath wellFormed stands noSlash]
  exact admissible_pathOf_iff addressable.names isSegment_descriptorName

theorem admissible_binPath_iff (addressable : Addressable (stagingLocation base version)) :
    Admissible ((stagingPath (pathOf base) version).join ⟨binName⟩) binName ↔
      Addressable (stagingLocation base version ++ [binName]) := by
  rw [binPath_stagingPath wellFormed stands noSlash]
  exact admissible_pathOf_iff addressable.names isSegment_binName

theorem obstacle_of_obstructs
    (obstructs : Obstructs disk (stagingPath (pathOf base) version) base
      (Utf8.ofString (stagingName version)) cause) : obstacle disk base version = some cause := by
  have addressable_iff := admissible_stagingPath_iff wellFormed stands noSlash
  rw [obstacle]
  cases obstructs with
  | refused inadmissible refuses =>
      rw [if_neg (mt addressable_iff.mpr inadmissible)]
  | @leaf node admissible found noDirectory noLink =>
      rw [if_pos (addressable_iff.mp admissible)]
      cases node with
      | directory => exact absurd rfl noDirectory
      | link target => exact absurd rfl (noLink target)
      | special special => simp only [stagingLocation, view?_eq_special_iff.mpr found]
      | file id =>
          rcases wellFormed.filed.exists_file found with ⟨file, content⟩
          simp only [stagingLocation, view?_eq_file_iff.mpr ⟨id, found, content⟩]
  | dangling admissible found absent =>
      rw [if_pos (addressable_iff.mp admissible)]
      simp [stagingLocation, view?_eq_link_iff.mpr found, absent]

theorem obstacle_of_begins (begins : Begins disk (pathOf base) executable base version) :
    obstacle disk base version = none := by
  rw [obstacle, if_pos (begins.addressable wellFormed stands noSlash)]
  cases found : disk.node? (stagingLocation base version) with
  | none =>
      rw [wellFormed.filed.view?_eq_none_iff.mpr found]
  | some node =>
      have present := begins.exists_of_stands node found
      rcases begins.clearable node found with rfl | ⟨target, rfl⟩
      · rw [view?_eq_directory_iff.mpr found]
      · simp [view?_eq_link_iff.mpr found, present]

theorem verdict_of_prevents {fault : Error}
    (prevents : Prevents disk (pathOf base) executable base version fault) :
    verdict disk base executable version = (.error fault, .nothing) := by
  cases prevents with
  | unfit unfit =>
      exact verdict_of_unfit unfit
  | obstructed meansFile obstructs =>
      rcases shown_of_meansFile wellFormed meansFile with ⟨file, shows⟩
      exact verdict_of_obstacle shows (obstacle_of_obstructs wellFormed stands noSlash obstructs)

variable
  (noLink : ∀ target, disk.node? (archiveLocation base version) ≠ some (.link target))

include noLink

/-- Once a bundle is laid out the path of the archive leads to its location. -/
theorem resolve_archivePath (staged : Staged disk (stagingLocation base version) state)
    (addressable : Addressable (archiveLocation base version)) :
    ∃ spot, state.resolve .creation (archivePath (pathOf base) version) = .ok spot ∧
      spot.place = .live (archiveLocation base version) := by
  have belowRoot := stagingLocation_ne_nil base version
  have stays : state.node? base = some .directory :=
    (node?_of_staged staged belowRoot (not_prefix_directory _ _)).trans stands
  have same : state.node? (archiveLocation base version) =
      disk.node? (archiveLocation base version) :=
    node?_of_staged staged belowRoot (not_prefix_archiveLocation base version)
  rw [archivePath_eq wellFormed stands noSlash]
  cases found : disk.node? (archiveLocation base version) with
  | none =>
      exact ⟨_, resolve_vacant staged.wellFormed .creation stays (same.trans found) addressable,
        rfl⟩
  | some node =>
      have kept : ∀ target, node ≠ .link target := by
        rintro target rfl
        exact noLink target found
      exact ⟨_, resolve_occupied staged.wellFormed .creation (same.trans found) (.inr kept)
        addressable, rfl⟩

/-- What is written to the archive stays when the staging directory is taken away. -/
theorem alike_delivered (begins : Begins disk (pathOf base) executable base version)
    {handle : Handle} {opened : FileSystem}
    (archives : Archives disk (pathOf base) executable base version file handle opened)
    (entries : List Entry) :
    Alike ((stateAfter (write handle (.archive entries)) opened).cut
        (stagingLocation base version))
      ((Effect.delivered entries).apply base version disk) := by
  have belowRoot := stagingLocation_ne_nil base version
  have isName := isName_stagingName (begins.addressable wellFormed stands noSlash)
  have staged := staged_prepared (site_stagingLocation wellFormed stands noSlash) isName file
    version
  rcases (opens_of_ok archives.ran).exists_deposit staged.wellFormed (.archive entries) with
    ⟨spot, location, ends, there, wrote⟩
  have place := place_of_no_link wellFormed stands noSlash noLink staged ends
  rw [there] at place
  cases place
  rw [wrote]
  show Alike ((FileSystem.deposit _ (archiveLocation base version) (.archive entries)).cut _) _
  rw [cut_deposit belowRoot (not_prefix_archiveLocation base version)]
  exact (staged.alike_cut wellFormed belowRoot).deposit (staged.wellFormed.filed.cut belowRoot)
    (wellFormed.filed.cut belowRoot) (archiveLocation_ne_nil base version)

/-- What has been laid out is gathered, because the archive does not lie in it. -/
theorem entries_of_archives (begins : Begins disk (pathOf base) executable base version)
    {handle : Handle} {opened : FileSystem}
    (archives : Archives disk (pathOf base) executable base version file handle opened) :
    (Archive.gatherTree opened handle (stagingPath (pathOf base) version)).failure = none ∧
      (Archive.gatherTree opened handle (stagingPath (pathOf base) version)).entries =
        entriesOf file version := by
  have site := site_stagingLocation wellFormed stands noSlash
  have addressable := begins.addressable wellFormed stands noSlash
  have isName := isName_stagingName addressable
  have staged := staged_prepared site isName file version
  have bundled := gatherTree_of_archives wellFormed stands noSlash addressable
    (not_writesInto_prepared site isName file fun _ _ ends there _ =>
      apart_of_no_link wellFormed stands noSlash noLink staged ends there) archives
  exact ⟨bundled.1, bundled.2.entries_eq⟩

/-! ## How a run ends, by its verdict -/

variable (passesBy : ¬ disk.PassesThrough .target executable (stagingLocation base version))

include passesBy

theorem verdict_of_hinders (begins : Begins disk (pathOf base) executable base version)
    (hinders : Hinders disk (pathOf base) executable base version cause) :
    verdict disk base executable version = (.error (.io cause), .cleared) := by
  have site := site_stagingLocation wellFormed stands noSlash
  have addressable := begins.addressable wellFormed stands noSlash
  have isName := isName_stagingName addressable
  have fits_iff := admissible_descriptorPath_iff wellFormed stands noSlash addressable
  have above_iff := admissible_binPath_iff wellFormed stands noSlash addressable
  have free := obstacle_of_begins wellFormed stands noSlash begins
  rcases begins.meansFile with ⟨place, id, found, isFile⟩
  rcases wellFormed.file?_of_nodeAt? isFile with ⟨-, file, content⟩
  have shows : disk.shown executable = .ok (some (.file file)) := by
    rw [shown, found, Except.map, viewAt?_eq_file_iff.mpr ⟨id, isFile, content⟩]
  have means := sourceAt_furnished site isName passesBy ⟨place, found, isFile⟩
  have readable : (∃ other, (furnished disk (stagingLocation base version)).openToRead executable =
      .ok (.file other)) → file.isReadable = true := by
    rintro ⟨other, reads⟩
    cases (sourceAt_of_openToRead reads).symm.trans means
    exact isReadable_of_openToRead reads content
  refine verdict_of_hindrance shows free ?_
  cases hinders with
  | spoiled spoils =>
      cases spoils with
      | unread admissible unread =>
          cases unread with
          | noFile noFile =>
              exact absurd means (noFile id)
          | denied otherMeans otherContent denied =>
              cases otherMeans.symm.trans means
              cases content.symm.trans otherContent
              simp [hindrance, above_iff.mp admissible, denied]
      | tooLong refused reads =>
          have cramped := mt fits_iff.mpr refused
          by_cases above : Addressable (stagingLocation base version ++ [binName])
          · simp [hindrance, above, readable (reads (above_iff.mpr above)), cramped]
          · simp [hindrance, above]
  | @unopened laid _ _ admissible reads failed =>
      have staged := staged_prepared site isName laid version
      rcases resolve_archivePath wellFormed stands noSlash noLink staged
        (addressable_archiveLocation noSlash addressable) with ⟨spot, ends, there⟩
      rcases openToWrite_cases staged.wellFormed ends there with
        ⟨-, handle, opened, ran⟩ | ⟨other, denied, ran⟩
      · have impossible := failed.symm.trans ran
        cases impossible
      · have same := failed.symm.trans ran
        cases same
        rw [view?_of_staged wellFormed staged (not_prefix_archiveLocation base version)] at denied
        have fits := fits_iff.mp admissible
        simp [hindrance, addressable_binLocation fits, readable reads, fits, denied]

theorem verdict_of_archives (begins : Begins disk (pathOf base) executable base version)
    {handle : Handle} {opened : FileSystem}
    (archives : Archives disk (pathOf base) executable base version file handle opened) :
    verdict disk base executable version =
      (.ok (archivePath (pathOf base) version), .delivered (entriesOf file version)) := by
  have site := site_stagingLocation wellFormed stands noSlash
  have addressable := begins.addressable wellFormed stands noSlash
  have isName := isName_stagingName addressable
  have fits := (admissible_descriptorPath_iff wellFormed stands noSlash addressable).mp
    archives.reachedLast.admissible
  have free := obstacle_of_begins wellFormed stands noSlash begins
  rcases archives.copied with ⟨source, reads, content⟩
  have shows : disk.shown executable = .ok (some (.file file)) := by
    rcases begins.meansFile with ⟨place, id, found, isFile⟩
    have same := (sourceAt_of_openToRead reads).symm.trans
      (sourceAt_furnished site isName passesBy ⟨place, found, isFile⟩)
    cases same
    rw [shown, found, Except.map, viewAt?_eq_file_iff.mpr ⟨_, isFile, content⟩]
  have staged := staged_prepared site isName file version
  rcases resolve_archivePath wellFormed stands noSlash noLink staged
    (addressable_archiveLocation noSlash addressable) with ⟨spot, ends, there⟩
  rcases openToWrite_cases staged.wellFormed ends there with ⟨admits, -⟩ | ⟨cause, -, failed⟩
  · rw [view?_of_staged wellFormed staged (not_prefix_archiveLocation base version)] at admits
    exact Delivers.verdict_eq ⟨shows, free, isReadable_of_openToRead reads content, fits, admits⟩
  · have impossible := archives.ran.symm.trans failed
    cases impossible

end

/--
A run ends as its verdict says: it answers that, and the file system looks like the one before the
run once the effect has come about.
-/
theorem create_verdict (session : Session) (executable : Path)
    (wellFormed : session.disk.WellFormed)
    (stands : session.disk.node? base = some .directory) (noSlash : '/' ∉ version.toList)
    (noLink : ∀ target, session.disk.node? (archiveLocation base version) ≠ some (.link target))
    (passesBy : ¬ session.disk.PassesThrough .target executable (stagingLocation base version)) :
    answer (create (pathOf base) executable version) session =
        (verdict session.disk base executable version).1 ∧
      Alike (stateAfter (create (pathOf base) executable version) session).disk
        ((verdict session.disk base executable version).2.apply base version session.disk) := by
  have belowRoot := stagingLocation_ne_nil base version
  have ends := ends_create_pathOf wellFormed stands noSlash executable
  rw [answer, stateAfter]
  generalize create (pathOf base) executable version session = result at ends
  cases ends with
  | unchanged prevents =>
      rw [verdict_of_prevents wellFormed stands noSlash prevents]
      exact ⟨rfl, .refl _⟩
  | abandoned begins staged hinders =>
      rw [verdict_of_hinders wellFormed stands noSlash noLink passesBy begins hinders]
      exact ⟨rfl, staged.alike_cut wellFormed belowRoot⟩
  | archived begins archives complete =>
      rw [verdict_of_archives wellFormed stands noSlash noLink passesBy begins archives, archived,
        (entries_of_archives wellFormed stands noSlash noLink begins archives).2]
      exact ⟨rfl, alike_delivered wellFormed stands noSlash noLink begins archives _⟩
  | discarded begins archives incomplete =>
      rw [(entries_of_archives wellFormed stands noSlash noLink begins archives).1] at incomplete
      cases incomplete

/-- A run answers, and has the effect, that it would in a file system that looks alike. -/
theorem create_verdict_of_alike (session : Session) (executable : Path)
    (wellFormed : session.disk.WellFormed)
    (alike : Alike session.disk state) (filed : state.Filed)
    (stands : state.node? base = some .directory) (noSlash : '/' ∉ version.toList)
    (noLink : ∀ target, state.node? (archiveLocation base version) ≠ some (.link target))
    (passesBy : ¬ state.PassesThrough .target executable (stagingLocation base version)) :
    answer (create (pathOf base) executable version) session =
        (verdict state base executable version).1 ∧
      Alike (stateAfter (create (pathOf base) executable version) session).disk
        ((verdict state base executable version).2.apply base version state) := by
  have views : ∀ location, session.disk.view? location = state.view? location := alike.views
  have standsHere : session.disk.node? base = some .directory :=
    view?_eq_directory_iff.mp ((views base).trans (view?_eq_directory_iff.mpr stands))
  have noLinkHere : ∀ target,
      session.disk.node? (archiveLocation base version) ≠ some (.link target) := fun target found =>
    noLink target (view?_eq_link_iff.mp ((views _).symm.trans (view?_eq_link_iff.mpr found)))
  have passesByHere := mt (alike.passesThrough_iff wellFormed.filed filed _ _ _).mp passesBy
  rcases create_verdict session executable wellFormed standsHere noSlash noLinkHere passesByHere with
    ⟨answered, left⟩
  rw [verdict_of_alike alike wellFormed.filed filed] at answered left
  exact ⟨answered, left.trans (Effect.alike alike wellFormed.filed filed _)⟩

end BundlePacker.Bundle
