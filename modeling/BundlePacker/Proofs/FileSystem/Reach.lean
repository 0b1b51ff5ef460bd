import BundlePacker.Proofs.FileSystem.PathOf
import BundlePacker.Proofs.Path.Names

/-!
# Paths that go on from a directory

A path that leads to a directory, by links or dots or however it is written, can be extended by
names.  A path that is extended in this way is resolved like the first of the new names in that
directory, whatever is to be done there; only the number of links that may still be followed depends
on what came before.  So a call on the path is decided by the entry of that name, as long as the
system takes the path at all.

The main statement is that an extended path arrives: it reaches the entry, or every resolution of it
is refused for the same reason.
-/

namespace BundlePacker.FileSystem

open BundlePacker.Path (segments)

variable {system : FileSystem} {purpose : Purpose} {links : Nat} {here : Place} {slash : Bool}
  {directory : Location} {name : Name} {names rest : List Name} {path base : Path}

/-! ## One step of a resolution with a number of links -/

theorem resolveFrom_self :
    resolveFrom system purpose links here (selfName :: rest) slash =
      resolveFrom system purpose links here rest slash := by
  cases links <;> exact descend_self

theorem resolveFrom_parent :
    resolveFrom system purpose links here (parentName :: rest) slash =
      resolveFrom system purpose links here.parent rest slash := by
  cases links <;> exact descend_parent

theorem resolveFrom_inside (enters : Enters purpose slash name rest)
    (stands : system.node? (directory ++ [name]) = some .directory) :
    resolveFrom system purpose links (.live directory) (name :: rest) slash =
      resolveFrom system purpose links (.live (directory ++ [name])) rest slash := by
  cases links <;> exact descend_inside enters stands

theorem resolveFrom_followed {target : Path} (enters : Enters purpose slash name rest)
    (stands : system.node? (directory ++ [name]) = some (.link target))
    (leads : ¬ (rest = [] ∧ purpose = .entry)) :
    resolveFrom system purpose (links + 1) (.live directory) (name :: rest) slash =
      resolveFrom system purpose links
        (.live (if target.isAbsolute then [] else directory)) (target.names ++ rest)
        (if rest = [] then slash || target.endsInSlash else slash) :=
  descend_followed enters stands leads

/-! ## Going on from a directory -/

theorem Enters.before {other : Purpose} {slashAfter : Bool}
    (enters : Enters purpose slash name names) (more : rest ≠ []) :
    Enters other slashAfter name (names ++ rest) :=
  ⟨enters.neSelf, enters.neParent, fun ends => more (List.append_eq_nil_iff.mp ends.1).2,
    enters.short⟩

/-- How the resolution of names goes on with further names, once it has come to a place. -/
def GoesOn (system : FileSystem) (links : Nat) (here : Place) (names : List Name)
    (left : Place) : Prop :=
  ∃ remaining, ∀ purpose rest slash, rest ≠ [] →
    resolveFrom system purpose links here (names ++ rest) slash =
      resolveFrom system purpose remaining left rest slash

theorem GoesOn.step {next : Place} (later : GoesOn system links next rest here)
    {start : Place} (steps : ∀ purpose more slash, more ≠ [] →
      resolveFrom system purpose links start (name :: (rest ++ more)) slash =
        resolveFrom system purpose links next (rest ++ more) slash) :
    GoesOn system links start (name :: rest) here := by
  rcases later with ⟨remaining, goes⟩
  refine ⟨remaining, fun purpose more slash proper => ?_⟩
  rw [List.cons_append, steps purpose more slash proper, goes purpose more slash proper]

theorem Descends.goesOn {following : Following} {left : Place}
    (isDirectory : system.nodeAt? left = some .directory)
    (follows : ∀ directory target rest name slash,
      system.node? (directory ++ [name]) = some (.link target) →
      Enters .target slash name rest →
      following directory target rest slash = .ok (.occupied left) →
      GoesOn system links (.live directory) (name :: rest) left)
    (descends : Descends system .target following slash here names (.occupied left)) :
    GoesOn system links here names left := by
  generalize ends : Spot.occupied left = spot at descends
  induction descends with
  | done =>
      cases ends
      exact ⟨links, fun _ _ _ _ => rfl⟩
  | self later hypothesis =>
      exact (hypothesis ends).step fun _ _ _ _ => resolveFrom_self
  | parent later hypothesis =>
      exact (hypothesis ends).step fun _ _ _ _ => resolveFrom_parent
  | missing enters vacant =>
      cases ends
  | inside enters stands later hypothesis =>
      exact (hypothesis ends).step fun _ _ _ more =>
        resolveFrom_inside (enters.before more) stands
  | kept enters stands entry =>
      cases entry
  | followed enters stands leads later =>
      cases ends
      exact follows _ _ _ _ _ stands enters later
  | leaf enters stands noDirectory noLink bare =>
      cases ends
      rw [nodeAt?_live, stands] at isDirectory
      exact absurd (Option.some.inj isDirectory) noDirectory

/-- A resolution that comes to a directory goes on there with whatever names are added. -/
theorem goesOn_of_resolveFrom {left : Place} (isDirectory : system.nodeAt? left = some .directory)
    (ends : resolveFrom system .target links here names slash = .ok (.occupied left)) :
    GoesOn system links here names left := by
  induction links generalizing here names slash with
  | zero =>
      refine Descends.goesOn isDirectory ?_ (descend_eq_ok_iff.mp ends)
      intro _ _ _ _ _ _ _ impossible
      cases impossible
  | succ links hypothesis =>
      refine Descends.goesOn isDirectory ?_ (descend_eq_ok_iff.mp ends)
      intro directory target rest name slash stands enters follows
      rcases hypothesis follows with ⟨remaining, goes⟩
      refine ⟨remaining, fun purpose more slash proper => ?_⟩
      have notLast : ¬ rest ++ more = [] := fun empty => proper (List.append_eq_nil_iff.mp empty).2
      rw [List.cons_append, resolveFrom_followed (enters.before proper) stands
        (fun last => notLast last.1), if_neg notLast, ← List.append_assoc]
      exact goes purpose more slash proper

/-! ## Extended paths -/

/-- Whether a path is written like another one with names after it. -/
structure Extends (path base : Path) (names : List Name) : Prop where
  names : path.names = base.names ++ names
  starts : path.isAbsolute = base.isAbsolute
  bare : path.endsInSlash = false
  nonempty : path.bytes ≠ []

theorem Extends.trans {further : Path} {more : List Name} (longer : Extends path base names)
    (longest : Extends further path more) : Extends further base (names ++ more) where
  names := by rw [longest.names, longer.names, List.append_assoc]
  starts := longest.starts.trans longer.starts
  bare := longest.bare
  nonempty := longest.nonempty

/-- A name that is joined to a path extends it. -/
theorem extends_join (nonempty : base.bytes ≠ []) (solid : IsSegment name) :
    Extends (base.join ⟨name⟩) base [name] where
  names := by
    rw [Path.names_join nonempty (isAbsolute_of_isSegment solid), names_of_isSegment solid]
  starts := Path.isAbsolute_join nonempty (isAbsolute_of_isSegment solid)
  bare := (Path.endsInSlash_join (isAbsolute_of_isSegment solid) solid.nonempty).trans
    (endsInSlash_of_isSegment solid)
  nonempty := Path.join_ne_nil nonempty (isAbsolute_of_isSegment solid)

/-- The parent of a path with two names joined to it has the first one only. -/
theorem parent?_join_join (nonempty : base.bytes ≠ []) {first last : Bytes}
    (solid : IsSegment first) (solidLast : IsSegment last) :
    ((base.join ⟨first⟩).join ⟨last⟩).parent? = some (base.join ⟨first⟩) := by
  have relative := isAbsolute_of_isSegment solid
  have bare : (base.join ⟨first⟩).endsInSlash = false := (extends_join nonempty solid).bare
  have joined : (base.join ⟨first⟩).join ⟨last⟩ =
      ⟨(base.join ⟨first⟩).bytes ++ Path.slash :: last⟩ := by
    rw [Path.join, isAbsolute_of_isSegment solidLast, bare]
    simp [Path.join_ne_nil nonempty relative]
  have own : (segments first).getLast? = some first := by
    rw [Path.segments_of_not_mem solid.noSlash, List.getLast?_singleton]
  have ends : (segments (base.join ⟨first⟩).bytes).getLast? = some first := by
    rcases Path.join_cases base relative with ⟨empty, -⟩ | ⟨start, -, shape⟩ | ⟨-, shape⟩
    · exact absurd empty nonempty
    · rw [shape, Path.segments_append_slash, List.getLast?_append, own, Option.some_or]
    · rw [shape, Path.segments_append_slash, List.getLast?_append, own, Option.some_or]
  rw [joined]
  exact parent?_append_slash ends solid solidLast

/-- Whether the system takes a path with a last name: neither is too long, and no byte is zero. -/
structure Admissible (path : Path) (name : Name) : Prop where
  clean : (0 : UInt8) ∉ path.bytes
  short : path.bytes.length < pathLimit
  fits : name.length ≤ nameLimit

/-- Whether a path is resolved like a name in a directory, whatever is to be done there. -/
structure Reaches (system : FileSystem) (path : Path) (directory : Location) (name : Name) :
    Prop where
  isName : IsName name
  last : path.names.getLast? = some name
  bare : path.endsInSlash = false
  admissible : Admissible path name
  resolves : ∃ links, ∀ purpose, system.resolve purpose path =
    (resolveFrom system purpose links (.live directory) [name] false).mapError .refused

/-- Whether a path is refused whatever is to be done there. -/
def Refuses (system : FileSystem) (path : Path) : Prop :=
  ∀ purpose, system.resolve purpose path = .error (refusalOf path)

/-- Whether a path comes to a name in a directory, as far as the system takes the path at all. -/
structure Arrives (system : FileSystem) (path : Path) (directory : Location) (name : Name) :
    Prop where
  reaches : Admissible path name → system.Reaches path directory name
  refuses : ¬ Admissible path name → system.Refuses path

theorem Arrives.cases (arrives : system.Arrives path directory name) :
    system.Reaches path directory name ∨ ¬ Admissible path name ∧ system.Refuses path :=
  (Classical.em (Admissible path name)).imp arrives.reaches fun refused =>
    ⟨refused, arrives.refuses refused⟩

theorem mem_of_mem_names {byte : UInt8} (member : name ∈ path.names) (inside : byte ∈ name) :
    byte ∈ path.bytes :=
  Path.mem_of_mem_segments (List.mem_filter.mp member).1 inside

/-- A path that extends one to a directory is resolved like the last of its names. -/
theorem Extends.exists_resolve (wellFormed : system.WellFormed) {top inner : Location}
    (leads : system.locate base = .ok (.live top))
    (stands : system.node? (top ++ inner) = some .directory)
    (longer : Extends path base (inner ++ [name])) (clean : (0 : UInt8) ∉ path.bytes)
    (short : path.bytes.length < pathLimit) :
    ∃ remaining, ∀ purpose, system.resolve purpose path =
      (resolveFrom system purpose remaining (.live (top ++ inner)) [name] false).mapError
        .refused := by
  have above : system.nodeAt? (.live top) = some .directory := wellFormed.directory_above stands
  rcases resolve_eq_ok_iff.mp (locate_eq_ok_iff.mp leads) with ⟨-, here, begins, reached⟩
  rcases goesOn_of_resolveFrom above reached with ⟨remaining, goes⟩
  have starts : system.start path = .ok here := by
    rw [start] at begins ⊢
    rw [if_neg longer.nonempty, if_neg (Nat.not_le_of_lt short), longer.starts]
    split at begins
    · cases begins
    split at begins
    · cases begins
    · exact begins
  refine ⟨remaining, fun purpose => ?_⟩
  have walked : resolveFrom system purpose linkLimit here path.names path.endsInSlash =
      resolveFrom system purpose remaining (.live (top ++ inner)) [name] false := by
    rw [longer.names, longer.bare, goes purpose _ false (by simp)]
    exact resolveFrom_directories wellFormed purpose remaining stands
  rw [resolve, if_neg clean, starts]
  simp only [walked]
  cases resolveFrom system purpose remaining (.live (top ++ inner)) [name] false <;> rfl

/-- A path that extends one to a directory arrives at the last of its names. -/
theorem arrives_of_extends (wellFormed : system.WellFormed) {top inner : Location}
    (leads : system.locate base = .ok (.live top))
    (stands : system.node? (top ++ inner) = some .directory) (solid : IsSegment name)
    (longer : Extends path base (inner ++ [name])) :
    system.Arrives path (top ++ inner) name := by
  have last : path.names.getLast? = some name := by
    rw [longer.names, ← List.append_assoc, List.getLast?_concat]
  constructor
  · intro admissible
    have clean : (0 : UInt8) ∉ name := fun inside =>
      admissible.clean (mem_of_mem_names (List.mem_of_getLast? last) inside)
    exact
      { isName := ⟨solid.nonempty, solid.noSlash, clean, solid.neSelf, solid.neParent,
          admissible.fits⟩
        last := last
        bare := longer.bare
        admissible := admissible
        resolves := longer.exists_resolve wellFormed leads stands admissible.clean
          admissible.short }
  · intro inadmissible purpose
    by_cases clean : (0 : UInt8) ∉ path.bytes
    · rw [refusalOf, if_neg clean]
      by_cases short : path.bytes.length < pathLimit
      · have long : nameLimit < name.length :=
          Nat.lt_of_not_le fun fits => inadmissible ⟨clean, short, fits⟩
        rcases longer.exists_resolve wellFormed leads stands clean short with
          ⟨remaining, resolved⟩
        have refused : resolveFrom system purpose remaining (.live (top ++ inner)) [name] false =
            .error .nameTooLong := by
          cases remaining <;> simp [resolveFrom, descend, solid.neSelf, solid.neParent, long]
        rw [resolved, refused]
        rfl
      · rw [resolve, if_neg clean, start, if_neg longer.nonempty, if_pos (Nat.le_of_not_lt short)]
    · rw [resolve, refusalOf, if_pos (Classical.not_not.mp clean),
        if_pos (Classical.not_not.mp clean)]

/-! ## Where a path ends that reaches a name -/

namespace Reaches

variable (reaches : system.Reaches path directory name)

include reaches

theorem nonempty : path.bytes ≠ [] := by
  intro empty
  have last := reaches.last
  rw [Path.names, empty] at last
  cases last

theorem resolve_of_resolveFrom {spot : Spot}
    (ends : ∀ links, resolveFrom system purpose links (.live directory) [name] false = .ok spot) :
    system.resolve purpose path = .ok spot := by
  rcases reaches.resolves with ⟨links, resolved⟩
  rw [resolved, ends]
  rfl

theorem resolve_vacant (purpose : Purpose) (vacant : system.node? (directory ++ [name]) = none) :
    system.resolve purpose path = .ok (.vacant directory name) := by
  apply reaches.resolve_of_resolveFrom
  intro links
  cases links <;> exact descend_of_descends (.missing reaches.isName.enters vacant)

/-- A path that reaches a node ends there, unless that is a link that is to be followed. -/
theorem resolve_occupied (purpose : Purpose) {node : Node}
    (stands : system.node? (directory ++ [name]) = some node)
    (kept : purpose = .entry ∨ ∀ target, node ≠ .link target) :
    system.resolve purpose path = .ok (.occupied (.live (directory ++ [name]))) := by
  apply reaches.resolve_of_resolveFrom
  intro links
  have enters : Enters purpose false name [] := reaches.isName.enters
  have descends : ∀ following, Descends system purpose following false (.live directory) [name]
      (.occupied (.live (directory ++ [name]))) := by
    intro following
    cases node with
    | directory =>
        exact .inside enters stands .done
    | link target =>
        exact .kept enters stands (kept.resolve_right fun other => other target rfl)
    | file _ | special _ =>
        exact .leaf enters stands (by simp) (by simp) (.inr rfl)
  cases links <;> exact descend_of_descends (descends _)

theorem locateEntry_eq {node : Node} (stands : system.node? (directory ++ [name]) = some node) :
    system.locateEntry path = .ok (.live (directory ++ [name])) := by
  rw [locateEntry, reaches.bare]
  simp only [Bool.false_eq_true, if_false, reaches.resolve_occupied .entry stands (.inl rfl)]
  rfl

end Reaches

/-! ## Paths at which nothing stands -/

/-- Whether nothing stands at a path, not even a link to nowhere. -/
def Absent (system : FileSystem) (path : Path) : Prop :=
  ∀ place, system.locateEntry path ≠ .ok place

theorem Refuses.absent (refuses : system.Refuses path) : system.Absent path := by
  intro place found
  rw [locateEntry] at found
  simp only [refuses _] at found
  cases found

theorem Arrives.absent (arrives : system.Arrives path directory name)
    (vacant : system.node? (directory ++ [name]) = none) : system.Absent path := by
  rcases arrives.cases with reaches | refuses
  · intro place found
    rw [locateEntry, reaches.bare] at found
    simp only [Bool.false_eq_true, if_false, reaches.resolve_vacant .entry vacant] at found
    cases found
  · exact refuses.2.absent

/-! ## The paths of locations -/

theorem Refuses.of_not_addressable (wellFormed : system.WellFormed)
    (stands : system.node? directory = some .directory) (solid : IsSegment name)
    (refused : ¬ Addressable (directory ++ [name])) :
    system.Refuses (pathOf (directory ++ [name])) :=
  resolve_of_not_addressable wellFormed stands solid refused

/-- In a directory whose path the system takes a location is addressable if its path is taken. -/
theorem admissible_pathOf_iff (before : ∀ other ∈ directory, IsName other)
    (solid : IsSegment name) :
    Admissible (pathOf (directory ++ [name])) name ↔ Addressable (directory ++ [name]) := by
  constructor
  · intro admissible
    refine ⟨?_, admissible.short⟩
    intro other member
    rcases List.mem_append.mp member with early | last
    · exact before other early
    · rw [List.mem_singleton] at last
      subst last
      exact ⟨solid.nonempty, solid.noSlash,
        fun inside => admissible.clean ((zero_mem_pathOf _).mpr ⟨other, member, inside⟩),
        solid.neSelf, solid.neParent, admissible.fits⟩
  · intro addressable
    exact ⟨addressable.zero_not_mem, addressable.short,
      (addressable.names name (by simp)).short⟩

/-- The path of a location reaches its last name exactly when the system takes the path. -/
theorem Reaches.addressable (wellFormed : system.WellFormed)
    (stands : system.node? directory = some .directory)
    (reaches : system.Reaches (pathOf (directory ++ [name])) directory name) :
    Addressable (directory ++ [name]) :=
  (admissible_pathOf_iff (wellFormed.isName_of_mem (by simp [stands]))
    reaches.isName.isSegment).mp reaches.admissible

end BundlePacker.FileSystem
