import BundlePacker.Proofs.Bundle.Run

/-!
# What runs tell

A run that comes to its end tells a story, which has the same parts in the same order every time:
the directory, the two files in it, a line for each entry of the archive, and two lines on the end.
Only the first line depends on what an earlier run has left.

The main statement is that every run tells a beginning of this story, and a run that fails never the
whole of it.  What it tells is true: the bytes are counted of what was copied, and the entries are
those that the archive holds.
-/

namespace BundlePacker

open FileSystem
open BundlePacker.Bundle BundlePacker.StagingDirectory

namespace Archive

/-- Whether an event tells of an entry, and of the path that has given the entry its name. -/
def TellsOf (root : Path) (event : Event) (entry : Entry) : Prop :=
  ∃ path, event = .adding path entry.name ∧ entryName root path = .ok entry.name

variable {disk : FileSystem} {handle : Handle} {root : Path}

/-- Every entry that is gathered is told of, in the order of the archive. -/
theorem Gathers.told {done : List Entry} {found : List Found} {gathered : Gathered}
    (gathers : Gathers disk handle root done found gathered) :
    List.Forall₂ (TellsOf root) gathered.events gathered.entries := by
  induction gathers with
  | nothing _ | tooDeep _ _ _ | unnamed _ =>
      exact .nil
  | @unread _ path _ _ _ _ headed _ =>
      exact .cons ⟨path, rfl, entryName_of_heading headed⟩ .nil
  | @added _ path _ _ _ _ adds _ hypothesis =>
      exact .cons ⟨path, rfl, adds.called⟩ hypothesis

theorem forall₂_events_gatherTree (wellFormed : disk.WellFormed) (handle : Handle) (root : Path) :
    List.Forall₂ (TellsOf root) (gatherTree disk handle root).events
      (gatherTree disk handle root).entries := by
  rcases gatherTree_cases wellFormed handle root with
    ⟨fault, -, unwalked⟩ | ⟨found, -, -, gathers⟩
  · rw [unwalked]
    exact .nil
  · exact gathers.told

theorem eq_adding_of_forall₂ {events : List Event} {entries : List Entry} {event : Event}
    (each : List.Forall₂ (TellsOf root) events entries) (member : event ∈ events) :
    ∃ path name, event = .adding path name := by
  induction each with
  | nil => cases member
  | cons tells rest hypothesis =>
      rcases List.mem_cons.mp member with rfl | later
      · rcases tells with ⟨path, same, -⟩
        exact ⟨path, _, same⟩
      · exact hypothesis later

end Archive

namespace Run

variable {run : Run} {told : List Event} {answer : Except Error Path} {count : Nat}

/-- The events of a run that comes to its end, after it has copied so many bytes. -/
def story (run : Run) (count : Nat) : List Event :=
  (if run.session.disk.pathExists run.staging.path then [.removingStale run.staging.path]
    else []) ++
    [.createdStaging run.staging.path,
      .copied run.executable count run.staging.executablePath,
      .wrote run.staging.descriptorPath] ++
    run.gathered.events ++
    [.removedStaging run.staging.path,
      .wroteEntries run.gathered.entries.length run.archive]

theorem story_eq (run : Run) (count : Nat) :
    run.story count =
      run.beginning ++ (run.layingOut count ++ run.gathered.events) ++ run.finishing := by
  simp [story, beginning, opening, layingOut, finishing]

theorem wellFormed_laid (wellFormed : run.session.disk.WellFormed) : run.laid.WellFormed := by
  have made : run.made.WellFormed :=
    StagingDirectory.keeps_create (WellFormed.keptByMaking _) (WellFormed.keptByRemoving _)
      run.session wellFormed
  have copied : run.copied.WellFormed :=
    (WellFormed.keptByWriting _).copyFile (fun directory _ => WellFormed.keptByMaking directory)
      run.executable run.made made
  exact (WellFormed.keptByWriting _).writeFile run.description run.copied copied

/-- Every entry of a run's archive is told of, in order. -/
theorem told_gathered (wellFormed : run.session.disk.WellFormed) :
    List.Forall₂ (Archive.TellsOf run.staging.path) run.gathered.events run.gathered.entries := by
  rw [gathered]
  split
  · next handle opened opens =>
    exact Archive.forall₂_events_gatherTree
      ((opens_of_ok opens).wellFormed (wellFormed_laid wellFormed)) handle run.staging.path
  · exact .nil

theorem eq_adding_of_mem_gathered (wellFormed : run.session.disk.WellFormed) {event : Event}
    (member : event ∈ run.gathered.events) : ∃ path name, event = .adding path name :=
  Archive.eq_adding_of_forall₂ (told_gathered wellFormed) member

theorem mem_beginning {event : Event} :
    event ∈ run.beginning ↔
      event = .removingStale run.staging.path ∧
          run.session.disk.pathExists run.staging.path = true ∨
        event = .createdStaging run.staging.path := by
  rw [beginning, opening]
  split <;> simp_all

namespace Tells

/-- A run that fails stops before its archive is done, and any other run tells its whole story. -/
theorem cases (tells : run.Tells told answer) :
    (∃ count fault, answer = .error fault ∧
        told <+: run.beginning ++ (run.layingOut count ++ run.gathered.events)) ∨
      ∃ count, answer = .ok run.archive ∧ told = run.story count := by
  cases tells with
  | unfit _ =>
      exact .inl ⟨0, _, rfl, List.nil_prefix⟩
  | unmade _ =>
      refine .inl ⟨0, _, rfl, ?_⟩
      exact (List.prefix_append ..).trans (List.prefix_append ..)
  | uncopied _ =>
      exact .inl ⟨0, _, rfl, List.prefix_append ..⟩
  | @undescribed count cause _ =>
      exact .inl ⟨count, _, rfl, (List.prefix_append_right_inj _).mpr ⟨_, rfl⟩⟩
  | @unopened count cause _ =>
      exact .inl ⟨count, _, rfl, (List.prefix_append_right_inj _).mpr (List.prefix_append ..)⟩
  | @incomplete count fault _ _ =>
      exact .inl ⟨count, _, rfl, List.prefix_rfl⟩
  | @complete count handle _ _ _ _ =>
      exact .inr ⟨count, rfl, (run.story_eq count).symm⟩

theorem meansFile (tells : run.Tells told answer) (some : told ≠ []) :
    MeansFile run.session.disk run.executable := by
  cases tells with
  | unfit _ => exact absurd rfl some
  | unmade meansFile => exact meansFile
  | uncopied begins => exact begins.meansFile
  | undescribed copies => exact copies.meansFile
  | unopened laysOut => exact laysOut.meansFile
  | incomplete archives _ | complete archives _ _ _ => exact archives.meansFile

/-- What is told to be copied has been copied. -/
theorem copies {source destination : Path} (tells : run.Tells told answer)
    (wellFormed : run.session.disk.WellFormed)
    (member : .copied source count destination ∈ told) : run.Copies count := by
  have notBegun : .copied source count destination ∉ run.beginning := by simp [mem_beginning]
  have notAdded : .copied source count destination ∉ run.gathered.events := by
    intro added
    rcases eq_adding_of_mem_gathered wellFormed added with ⟨path, name, impossible⟩
    cases impossible
  have counts : ∀ {other : Nat}, .copied source count destination ∈ run.layingOut other →
      count = other := by
    intro other inside
    simp only [layingOut, List.mem_cons, Event.copied.injEq, reduceCtorEq, List.not_mem_nil,
      or_false] at inside
    exact inside.2.1
  cases tells with
  | unfit _ =>
      cases member
  | unmade _ =>
      exact absurd (List.mem_append_left _ member) notBegun
  | uncopied _ =>
      exact absurd member notBegun
  | @undescribed counted cause copies =>
      rcases List.mem_append.mp member with begun | own
      · exact absurd begun notBegun
      · have laid : .copied source count destination ∈ run.layingOut counted :=
          List.mem_cons.mpr (.inl (List.mem_singleton.mp own))
        cases counts laid
        exact copies
  | unopened laysOut =>
      rcases List.mem_append.mp member with begun | own
      · exact absurd begun notBegun
      · cases counts own
        exact laysOut.toCopies
  | incomplete archives _ =>
      rcases List.mem_append.mp member with begun | later
      · exact absurd begun notBegun
      · cases counts ((List.mem_append.mp later).resolve_right notAdded)
        exact archives.toCopies
  | complete archives _ _ _ =>
      have notLast : .copied source count destination ∉ run.finishing := by simp [finishing]
      rcases List.mem_append.mp ((List.mem_append.mp member).resolve_right notLast) with
        begun | later
      · exact absurd begun notBegun
      · cases counts ((List.mem_append.mp later).resolve_right notAdded)
        exact archives.toCopies

end Tells

/-! ## What events tell -/

/-- Whatever archive is found at the end of a run is the one that the run has written. -/
theorem Tells.entries_eq {path : Path} {entries : List Archive.Entry}
    (tells : run.Tells told (.ok path))
    (holds : run.last.disk.contentOf path = .ok (.archive entries)) :
    entries = run.gathered.entries := by
  cases tells with
  | @complete count handle archives complete opens removed =>
      have wellFormed := archives.grows.1
      have ran := opens_of_ok opens
      have grows := grows_written (ran.wellFormed wellFormed) handle
        (.archive run.gathered.entries)
      have before := contentOf_of_removeTree grows.1 removed holds
      by_cases device : run.laid.IsDevice run.archive
      · rcases device with ⟨location, ends, stands⟩
        have grown := (ran.grown wellFormed).trans grows.2
        have found := locate_of_resolve grown.nodes grown.places (by simp) (by simp) ends
        have irregular := grown.nodes _ _ stands
        simp [contentOf, sourceAt, Bind.bind, Except.bind, found, Spot.place, irregular] at before
      · have written := contentOf_of_opens wellFormed ran device run.gathered.entries
        cases written.symm.trans before
        rfl

end Run

end BundlePacker
