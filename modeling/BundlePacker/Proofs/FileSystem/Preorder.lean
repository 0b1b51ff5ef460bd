import BundlePacker.Proofs.FileSystem.Walk

/-!
# Walks that sort each directory

A system lists the entries of a directory in an order of its own.  A walk sorts each directory when
it comes to it, and goes into an entry before it looks at the next one, so that it never compares
the names of two directories.

The main statement says that what such a walk comes upon is what stands below its root by ascending
location, whatever the order in which the system lists its directories.
-/

namespace BundlePacker.FileSystem

/-- Whether every directory is listed with all its entries, each of them once. -/
def Lists (system : FileSystem) (order : Location → List Name) : Prop :=
  ∀ location, system.node? location = some .directory →
    (order location).Nodup ∧
      ∀ name, name ∈ order location ↔ system.node? (location ++ [name]) ≠ none

/-- The names of a directory's entries. -/
def entries (system : FileSystem) (location : Location) : List Name :=
  (system.below location).filterMap fun pair =>
    match pair.1.drop location.length with
    | [name] => some name
    | _ => none

/-- Names by ascending bytes. -/
def sortNames (names : List Name) : List Name :=
  names.mergeSort fun first second => (compare first second).isLE

/-- Fewer nodes stand below an entry than below its directory. -/
theorem length_below_lt {system : FileSystem} {location : Location} {name : Name} {node : Node}
    (stands : system.node? (location ++ [name]) = some node) :
    (system.below (location ++ [name])).length < (system.below location).length := by
  have inner : system.below (location ++ [name]) = (system.below location).filter fun pair =>
      decide (location ++ [name] <+: pair.1 ∧ pair.1 ≠ location ++ [name]) := by
    rw [below, below, List.filter_filter]
    refine List.filter_congr fun pair _ => ?_
    rw [← Bool.decide_and, decide_eq_decide]
    refine ⟨fun inside => ⟨inside, (List.prefix_append ..).trans inside.1, ?_⟩, And.left⟩
    rintro same
    have longer := inside.1.length_le
    rw [same, List.length_append, List.length_singleton] at longer
    omega
  rw [inner]
  refine List.length_filter_lt_length_iff_exists.mpr ⟨(location ++ [name], node), ?_, by simp⟩
  exact mem_below_iff.mpr ⟨stands, List.prefix_append .., by simp⟩

/--
What a walk comes upon below a location, when directories are listed in a given order: the entries
in the order of their names, and right behind a directory what is in it.
-/
def visit (system : FileSystem) (order : Location → List Name) (location : Location) :
    List (Location × Node) :=
  (sortNames (order location)).flatMap fun name =>
    match found : system.node? (location ++ [name]) with
    | none => []
    | some .directory =>
      (location ++ [name], .directory) :: visit system order (location ++ [name])
    | some node => [(location ++ [name], node)]
termination_by (system.below location).length
decreasing_by exact length_below_lt found

/-! ## Orders of listing -/

/-- What stands below a location and shows one name there is an entry of that name. -/
theorem eq_of_mem_below {system : FileSystem} {location inner : Location} {node : Node}
    {name : Name}
    (inside : (inner, node) ∈ system.below location)
    (shown : (match inner.drop location.length with
      | [name] => some name
      | _ => none) = some name) :
    inner = location ++ [name] ∧ system.node? (location ++ [name]) = some node := by
  rcases mem_below_iff.mp inside with ⟨stands, ⟨names, rfl⟩, -⟩
  rw [List.drop_left] at shown
  split at shown
  · cases shown
    exact ⟨rfl, stands⟩
  · cases shown

/-- Every directory can be listed. -/
theorem lists_entries (system : FileSystem) : system.Lists system.entries := by
  intro location _
  constructor
  · rw [entries, List.Nodup, List.pairwise_filterMap]
    refine (nodup_of_ordered (ordered_below system location)).imp_of_mem ?_
    rintro ⟨one, node⟩ ⟨other, otherNode⟩ inside otherInside apart name shown _ otherShown rfl
    rcases eq_of_mem_below inside shown with ⟨rfl, stands⟩
    rcases eq_of_mem_below otherInside otherShown with ⟨rfl, otherStands⟩
    rw [stands] at otherStands
    cases otherStands
    exact apart rfl
  · intro name
    rw [entries, List.mem_filterMap]
    constructor
    · rintro ⟨⟨inner, node⟩, inside, shown⟩
      rw [(eq_of_mem_below inside shown).2]
      exact Option.some_ne_none node
    · intro stands
      rcases Option.ne_none_iff_exists'.mp stands with ⟨node, found⟩
      refine ⟨(location ++ [name], node), mem_below_iff.mpr
        ⟨found, List.prefix_append .., by simp⟩, ?_⟩
      rw [List.drop_left]

/-- Directories can be listed backwards. -/
theorem Lists.reverse {system : FileSystem} {order : Location → List Name}
    (lists : system.Lists order) : system.Lists fun location => (order location).reverse := by
  intro location stands
  rcases lists location stands with ⟨distinct, complete⟩
  exact ⟨(List.reverse_perm _).nodup_iff.mpr distinct,
    fun name => List.mem_reverse.trans (complete name)⟩

/-! ## Sorted names -/

theorem mem_sortNames {names : List Name} {name : Name} : name ∈ sortNames names ↔ name ∈ names :=
  List.mem_mergeSort

/-- Distinct names are strictly ascending once they are sorted. -/
theorem pairwise_sortNames {names : List Name} (distinct : names.Nodup) :
    (sortNames names).Pairwise fun first second => compare first second = .lt := by
  have total : ∀ first second : Name,
      ((compare first second).isLE || (compare second first).isLE) = true := by
    intro first second
    have swapped : compare second first = (compare first second).swap := Std.OrientedCmp.eq_swap
    rw [swapped]
    cases compare first second <;> rfl
  have ascending : (sortNames names).Pairwise fun first second => (compare first second).isLE :=
    List.pairwise_mergeSort (fun _ _ _ => Std.TransCmp.isLE_trans) total names
  have apart : (sortNames names).Nodup := (List.mergeSort_perm ..).nodup_iff.mpr distinct
  refine (ascending.and apart).imp fun {first second} both => ?_
  rcases Ordering.isLE_iff_eq_lt_or_eq_eq.mp both.1 with before | same
  · exact before
  · exact absurd (Std.LawfulEqCmp.eq_of_compare same) both.2

/-! ## What is visited -/

variable {system : FileSystem} {order : Location → List Name}

/-- What stands below a location is one of its entries, or stands below a directory among them. -/
theorem mem_below_iff_entry (wellFormed : system.WellFormed) {location : Location}
    {pair : Location × Node} :
    pair ∈ system.below location ↔
      ∃ name node, system.node? (location ++ [name]) = some node ∧
        (pair = (location ++ [name], node) ∨
          node = .directory ∧ pair ∈ system.below (location ++ [name])) := by
  rcases pair with ⟨inner, node⟩
  rw [mem_below_iff]
  constructor
  · rintro ⟨stands, ⟨names, rfl⟩, proper⟩
    cases names with
    | nil => exact absurd (List.append_nil location) proper
    | cons name others =>
        rw [List.append_cons] at stands proper ⊢
        by_cases last : others = []
        · subst last
          rw [List.append_nil] at stands ⊢
          exact ⟨name, node, stands, .inl rfl⟩
        · have deeper : location ++ [name] ++ others ≠ location ++ [name] := by simpa using last
          have directory := wellFormed.node?_above (stands ▸ Option.some_ne_none node)
            (List.prefix_append (location ++ [name]) others) deeper
          exact ⟨name, .directory, directory, .inr ⟨rfl, mem_below_iff.mpr
            ⟨stands, List.prefix_append .., deeper⟩⟩⟩
  · rintro ⟨name, other, stands, same | ⟨-, inside⟩⟩
    · cases same
      exact ⟨stands, List.prefix_append .., by simp⟩
    · rcases mem_below_iff.mp inside with ⟨found, ⟨others, rfl⟩, -⟩
      exact ⟨found, (List.prefix_append ..).trans (List.prefix_append ..), by simp⟩

/-- What a walk comes upon in an entry of a directory. -/
def visitEntry (system : FileSystem) (order : Location → List Name) (location : Location)
    (name : Name) : List (Location × Node) :=
  match system.node? (location ++ [name]) with
  | none => []
  | some .directory => (location ++ [name], .directory) :: visit system order (location ++ [name])
  | some node => [(location ++ [name], node)]

theorem visit_eq (system : FileSystem) (order : Location → List Name) (location : Location) :
    system.visit order location =
      (sortNames (order location)).flatMap (system.visitEntry order location) := by
  rw [visit]
  refine List.flatMap_congr fun name _ => ?_
  unfold visitEntry
  split <;> simp_all

theorem mem_visitEntry_iff {location : Location} {name : Name} {pair : Location × Node} :
    pair ∈ system.visitEntry order location name ↔
      ∃ node, system.node? (location ++ [name]) = some node ∧
        (pair = (location ++ [name], node) ∨
          node = .directory ∧ pair ∈ system.visit order (location ++ [name])) := by
  unfold visitEntry
  split
  · next none => simp [none]
  · next directory => simp [directory]
  · next node notDirectory found => simpa [found] using fun same => absurd same notDirectory

/-- A walk comes upon what stands below, and upon nothing else. -/
theorem mem_visit_iff (wellFormed : system.WellFormed) (lists : system.Lists order)
    {location : Location} (stands : system.node? location = some .directory)
    {pair : Location × Node} :
    pair ∈ system.visit order location ↔ pair ∈ system.below location := by
  rw [visit_eq, List.mem_flatMap, mem_below_iff_entry wellFormed]
  constructor
  · rintro ⟨name, -, inside⟩
    rcases mem_visitEntry_iff.mp inside with ⟨node, found, same | ⟨rfl, later⟩⟩
    · exact ⟨name, node, found, .inl same⟩
    · have smaller := length_below_lt found
      exact ⟨name, .directory, found, .inr ⟨rfl, (mem_visit_iff wellFormed lists found).mp later⟩⟩
  · rintro ⟨name, node, found, inside⟩
    have listed : name ∈ order location :=
      ((lists location stands).2 name).mpr (found ▸ Option.some_ne_none node)
    refine ⟨name, mem_sortNames.mpr listed, mem_visitEntry_iff.mpr ⟨node, found, ?_⟩⟩
    rcases inside with same | ⟨rfl, later⟩
    · exact .inl same
    · have smaller := length_below_lt found
      exact .inr ⟨rfl, (mem_visit_iff wellFormed lists found).mpr later⟩
termination_by (system.below location).length

/-- What is come upon in an entry has the entry's location above it. -/
theorem prefix_of_mem_visitEntry (wellFormed : system.WellFormed) (lists : system.Lists order)
    {location : Location} {name : Name} {pair : Location × Node}
    (inside : pair ∈ system.visitEntry order location name) : location ++ [name] <+: pair.1 := by
  rcases mem_visitEntry_iff.mp inside with ⟨node, found, rfl | ⟨rfl, later⟩⟩
  · exact List.prefix_refl _
  · exact (mem_below_iff.mp ((mem_visit_iff wellFormed lists found).mp later)).2.1

/-- A walk comes upon what stands below by ascending location. -/
theorem pairwise_visit (wellFormed : system.WellFormed) (lists : system.Lists order)
    {location : Location} (stands : system.node? location = some .directory) :
    (system.visit order location).Pairwise fun one other => compare one.1 other.1 = .lt := by
  rw [visit_eq, List.pairwise_flatMap]
  constructor
  · intro name _
    unfold visitEntry
    split
    · exact .nil
    · next found =>
      have smaller := length_below_lt found
      refine .cons (fun pair inside => ?_) (pairwise_visit wellFormed lists found)
      -- A directory comes before what is in it, as its location is a part of that of the latter.
      rcases mem_below_iff.mp ((mem_visit_iff wellFormed lists found).mp inside)
        with ⟨-, ⟨others, same⟩, proper⟩
      rw [← same] at proper ⊢
      cases others with
      | nil => exact absurd (List.append_nil _) proper
      | cons first later =>
          have shorter := compare_append (location ++ [name]) [] (first :: later)
          rw [List.append_nil] at shorter
          rw [shorter]
          simp
    · exact List.pairwise_singleton ..
  · refine (pairwise_sortNames (lists location stands).1).imp fun {first second} before => ?_
    -- Two entries of one directory are told apart by the first names that differ.
    intro one oneInside other otherInside
    rcases prefix_of_mem_visitEntry wellFormed lists oneInside with ⟨names, same⟩
    rcases prefix_of_mem_visitEntry wellFormed lists otherInside with ⟨others, otherSame⟩
    rw [← same, ← otherSame, List.append_assoc, List.append_assoc, compare_append]
    simp [before]
termination_by (system.below location).length

/-- Whatever the order of listing, a walk comes upon what stands below by ascending location. -/
theorem visit_eq_below (wellFormed : system.WellFormed) (lists : system.Lists order)
    {location : Location} (stands : system.node? location = some .directory) :
    system.visit order location = system.below location :=
  (below_eq (pairwise_visit wellFormed lists stands) fun _ =>
    (mem_visit_iff wellFormed lists stands).symm).symm

end BundlePacker.FileSystem
