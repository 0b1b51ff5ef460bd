import BundlePacker.Proofs.FileSystem.Lookup

/-!
# Paths where there are no links

Without links the names of a path say by themselves where it leads: a name goes down, two dots go
up, and one dot stays.  A directory that was removed while it was in use still stands in for its old
location, because the way up from it is the same.  The main statement is that a resolution which
succeeds ends where the names say, and that a path which leads to a directory has directories on its
whole way.
-/

namespace BundlePacker.FileSystem

/-- Where names lead from a location, as far as the names alone can say. -/
def lexical : Location → List Name → Location
  | here, [] => here
  | here, name :: rest =>
    if name = selfName then lexical here rest
    else if name = parentName then lexical here.dropLast rest
    else lexical (here ++ [name]) rest

/-- Whether no link stands anywhere. -/
def LinkFree (system : FileSystem) : Prop :=
  ∀ location target, system.node? location ≠ some (.link target)

/-- Whether a place is a location, or stands in for it after its removal. -/
def Place.StandsFor (location : Location) : Place → Prop
  | live here => here = location
  | removed between above => above <+: location ∧ location.length = above.length + between + 1

/-- The location where a path begins, when relative paths begin at a given one. -/
def origin (home : Location) (path : Path) : Location :=
  if path.isAbsolute then [] else home

/-- Where a path leads, as far as its names alone can say. -/
def destination (home : Location) (path : Path) : Location :=
  lexical (origin home path) path.names

variable {system : FileSystem} {location here home : Location} {place : Place}

/-! ## Following names -/

theorem lexical_append (here : Location) (first second : List Name) :
    lexical here (first ++ second) = lexical (lexical here first) second := by
  induction first generalizing here with
  | nil =>
      rfl
  | cons name rest hypothesis =>
      simp only [List.cons_append, lexical, hypothesis]
      split
      · rfl
      · split <;> rfl

theorem lexical_name {name : Name} (neSelf : name ≠ selfName) (neParent : name ≠ parentName)
    (here : Location) (rest : List Name) :
    lexical here (name :: rest) = lexical (here ++ [name]) rest := by
  rw [lexical, if_neg neSelf, if_neg neParent]

theorem lexical_concat {name : Name} (neSelf : name ≠ selfName) (neParent : name ≠ parentName)
    (here : Location) (before : List Name) :
    lexical here (before ++ [name]) = lexical here before ++ [name] := by
  rw [lexical_append, lexical_name neSelf neParent, lexical]

/-! ## Places that stand for locations -/

namespace Place.StandsFor

/-- A place outside the tree stands for a location as well, though nothing is there. -/
theorem exists_location (place : Place) : ∃ location, place.StandsFor location := by
  cases place with
  | live here =>
      exact ⟨here, rfl⟩
  | removed between above =>
      refine ⟨above ++ List.replicate (between + 1) [], List.prefix_append .., ?_⟩
      simp [Nat.add_assoc]

theorem parent (stands : place.StandsFor location) :
    place.parent.StandsFor location.dropLast := by
  cases place with
  | live here =>
      exact congrArg List.dropLast stands
  | removed between above =>
      rcases stands with ⟨⟨more, rfl⟩, size⟩
      rw [List.length_append] at size
      have proper : more ≠ [] := by
        rintro rfl
        rw [List.length_nil] at size
        omega
      have shorter : (above ++ more).dropLast = above ++ more.dropLast :=
        List.dropLast_append_of_ne_nil proper
      cases between with
      | zero =>
          have last : more.dropLast = [] := by
            rw [← List.length_eq_zero_iff, List.length_dropLast]
            omega
          show above = _
          rw [shorter, last, List.append_nil]
      | succ between =>
          refine ⟨shorter ▸ List.prefix_append .., ?_⟩
          rw [shorter, List.length_append, List.length_dropLast]
          omega

/-- What is taken away still stands for where it was. -/
theorem without {cut : Location} (stands : place.StandsFor location) (belowRoot : cut ≠ []) :
    (place.without cut).StandsFor location := by
  have positive := List.length_pos_iff.mpr belowRoot
  cases place with
  | live here =>
      cases stands
      rw [Place.without]
      split
      · next inside =>
        have fits := inside.length_le
        refine ⟨(List.dropLast_prefix cut).trans inside, ?_⟩
        rw [List.length_dropLast]
        omega
      · rfl
  | removed between above =>
      rcases stands with ⟨begins, size⟩
      rw [Place.without]
      split
      · next inside =>
        have fits := inside.length_le
        refine ⟨((List.dropLast_prefix cut).trans inside).trans begins, ?_⟩
        rw [List.length_dropLast]
        omega
      · exact ⟨begins, size⟩

theorem withoutBelow (stands : place.StandsFor location) (cleared : Location) :
    (place.withoutBelow cleared).StandsFor location := by
  cases place with
  | live here =>
      have same : here = location := stands
      subst same
      rw [Place.withoutBelow]
      split
      · next inside =>
        have fits : cleared.length < here.length := by
          apply Nat.lt_of_le_of_ne inside.1.length_le
          intro same
          exact inside.2 (inside.1.eq_of_length same).symm
        exact ⟨inside.1, by omega⟩
      · rfl
  | removed between above =>
      rcases stands with ⟨begins, size⟩
      rw [Place.withoutBelow]
      split
      · next inside =>
        have fits := inside.1.length_le
        exact ⟨inside.1.trans begins, by omega⟩
      · exact ⟨begins, size⟩

end Place.StandsFor

/-! ## Resolutions without links -/

section Descents

variable {purpose : Purpose} {following : Following} {slash : Bool} {names : List Name}
  {spot : Spot}

/-- The place where a resolution ends stands for the location that the names say. -/
theorem Descends.standsFor (linkFree : system.LinkFree)
    (descends : Descends system purpose following slash place names spot)
    (stands : place.StandsFor here) : spot.place.StandsFor (lexical here names) := by
  induction descends generalizing here with
  | done =>
      exact stands
  | self later hypothesis =>
      rw [lexical, if_pos rfl]
      exact hypothesis stands
  | parent later hypothesis =>
      rw [lexical, if_neg parentName_ne_selfName, if_pos rfl]
      exact hypothesis stands.parent
  | missing enters vacant =>
      cases stands
      exact (lexical_name enters.neSelf enters.neParent _ []).symm
  | inside enters found later hypothesis =>
      cases stands
      rw [lexical_name enters.neSelf enters.neParent]
      exact hypothesis rfl
  | kept enters found entry =>
      exact absurd found (linkFree _ _)
  | followed enters found leads later =>
      exact absurd found (linkFree _ _)
  | leaf enters found noDirectory noLink bare =>
      cases stands
      exact (lexical_name enters.neSelf enters.neParent _ []).symm

/-- On the way to a directory every name is that of a directory. -/
theorem Descends.directory_on_way (linkFree : system.LinkFree)
    (descends : Descends system purpose following slash place names spot)
    (stands : place.StandsFor here) (leads : system.nodeAt? spot.place = some .directory)
    {before after : List Name} {name : Name} (shape : names = before ++ name :: after)
    (neSelf : name ≠ selfName) (neParent : name ≠ parentName) :
    system.node? (lexical here (before ++ [name])) = some .directory := by
  induction descends generalizing here before with
  | done =>
      cases before <;> cases shape
  | self later hypothesis =>
      cases before with
      | nil =>
          cases shape
          exact absurd rfl neSelf
      | cons first others =>
          cases shape
          rw [List.cons_append, lexical, if_pos rfl]
          exact hypothesis stands leads rfl
  | parent later hypothesis =>
      cases before with
      | nil =>
          cases shape
          exact absurd rfl neParent
      | cons first others =>
          cases shape
          rw [List.cons_append, lexical, if_neg parentName_ne_selfName, if_pos rfl]
          exact hypothesis stands.parent leads rfl
  | missing enters vacant =>
      rw [Spot.place, nodeAt?_live, vacant] at leads
      cases leads
  | inside enters found later hypothesis =>
      cases stands
      cases before with
      | nil =>
          cases shape
          rw [List.nil_append, lexical_name neSelf neParent, lexical]
          exact found
      | cons first others =>
          cases shape
          rw [List.cons_append, lexical_name enters.neSelf enters.neParent]
          exact hypothesis rfl leads rfl
  | kept enters found entry =>
      exact absurd found (linkFree _ _)
  | followed enters found further later =>
      exact absurd found (linkFree _ _)
  | leaf enters found noDirectory noLink bare =>
      rw [Spot.place, nodeAt?_live, found] at leads
      exact absurd (Option.some.inj leads) noDirectory

/-- A resolution that ends at a missing name ends at the last one, which is no dots. -/
theorem Descends.last_missing (linkFree : system.LinkFree) {directory : Location} {name : Name}
    (descends : Descends system purpose following slash place names (.vacant directory name)) :
    system.node? (directory ++ [name]) = none ∧
      ∃ before, names = before ++ [name] ∧ name ≠ selfName ∧ name ≠ parentName := by
  generalize ends : Spot.vacant directory name = spot at descends
  induction descends with
  | done | kept | leaf =>
      cases ends
  | self later hypothesis | parent later hypothesis | inside _ _ later hypothesis =>
      rcases hypothesis ends with ⟨vacant, before, rfl, proper⟩
      exact ⟨vacant, _ :: before, rfl, proper⟩
  | missing enters vacant =>
      cases ends
      exact ⟨vacant, [], rfl, enters.neSelf, enters.neParent⟩
  | followed enters found leads later =>
      exact absurd found (linkFree _ _)

end Descents

variable {purpose : Purpose} {path : Path} {spot : Spot}

theorem descends_of_resolve (ends : system.resolve purpose path = .ok spot) :
    ∃ place following, system.start path = .ok place ∧
      Descends system purpose following path.endsInSlash place path.names spot := by
  rcases resolve_eq_ok_iff.mp ends with ⟨-, place, begins, reached⟩
  exact ⟨place, _, begins, descends_of_descend reached⟩

theorem standsFor_of_start (begins : system.start path = .ok place)
    (stands : system.workingDirectory.StandsFor home) : place.StandsFor (origin home path) := by
  rw [start] at begins
  split at begins
  · cases begins
  split at begins
  · cases begins
  split at begins
  · next absolute =>
    cases begins
    exact (if_pos absolute).symm
  · next relative =>
    cases begins
    rwa [origin, if_neg relative]

/-- Without links a path that leads anywhere leads where its names say. -/
theorem standsFor_of_resolve (linkFree : system.LinkFree)
    (stands : system.workingDirectory.StandsFor home)
    (ends : system.resolve purpose path = .ok spot) :
    spot.place.StandsFor (destination home path) := by
  rcases descends_of_resolve ends with ⟨place, following, begins, descends⟩
  exact descends.standsFor linkFree (standsFor_of_start begins stands)

/-- A path to a directory has directories on its whole way. -/
theorem directory_on_way_of_resolve (linkFree : system.LinkFree)
    (stands : system.workingDirectory.StandsFor home)
    (ends : system.resolve purpose path = .ok spot)
    (leads : system.nodeAt? spot.place = some .directory) {before after : List Name} {name : Name}
    (shape : path.names = before ++ name :: after) (neSelf : name ≠ selfName)
    (neParent : name ≠ parentName) :
    system.node? (lexical (origin home path) (before ++ [name])) = some .directory := by
  rcases descends_of_resolve ends with ⟨place, following, begins, descends⟩
  exact descends.directory_on_way linkFree (standsFor_of_start begins stands) leads shape neSelf
    neParent

theorem last_missing_of_resolve (linkFree : system.LinkFree) {directory : Location} {name : Name}
    (ends : system.resolve purpose path = .ok (.vacant directory name)) :
    system.node? (directory ++ [name]) = none ∧
      ∃ before, path.names = before ++ [name] ∧ name ≠ selfName ∧ name ≠ parentName := by
  rcases descends_of_resolve ends with ⟨place, following, -, descends⟩
  exact descends.last_missing linkFree

end BundlePacker.FileSystem
