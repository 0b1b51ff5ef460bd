import BundlePacker.Proofs.FileSystem.Descent

/-!
# What a resolution looks at

The resolution of a path looks up entries of directories, one after the other, and depends on
nothing else in the tree.  A path passes through a location when one of these entries is the
location or lies below it.

The main statement says that a path that does not pass through a location is resolved alike whatever
stands there: when the node at the location and everything below it are exchanged or taken away, the
resolution ends where it ended before.  The second one says that a path which could be opened for
writing means what was opened, as long as nothing else on its way has changed.
-/

namespace BundlePacker.FileSystem

/-- How the entries that are looked up behind a link are gathered. -/
abbrev Tracing :=
  Location → Path → List Name → Bool → List Location

/-- The entries that following names from a place looks up, in order. -/
def lookups (system : FileSystem) (purpose : Purpose) (tracing : Tracing) :
    Place → List Name → Bool → List Location
  | _, [], _ => []
  | here, name :: rest, slash =>
    if name = selfName then
      lookups system purpose tracing here rest slash
    else if name = parentName then
      lookups system purpose tracing here.parent rest slash
    else if rest = [] ∧ slash ∧ purpose = .creation then
      []
    else
      match here with
      | .removed _ _ => []
      | .live location =>
        let there := location ++ [name]
        there ::
          match system.node? there with
          | some .directory => lookups system purpose tracing (.live there) rest slash
          | some (.link target) =>
            if rest = [] ∧ purpose = .entry then [] else tracing location target rest slash
          | _ => []

/-- The entries that are looked up from a place, through at most the given number of links. -/
def lookupsFrom (system : FileSystem) (purpose : Purpose) :
    Nat → Place → List Name → Bool → List Location
  | 0 => lookups system purpose fun _ _ _ _ => []
  | links + 1 =>
    lookups system purpose fun here target rest slash =>
      lookupsFrom system purpose links
        (.live (if target.isAbsolute then [] else here))
        (target.names ++ rest)
        (if rest = [] then slash || target.endsInSlash else slash)

/-- The entries that the resolution of a path looks up, in order. -/
def lookedUp (system : FileSystem) (purpose : Purpose) (path : Path) : List Location :=
  match system.start path with
  | .error _ => []
  | .ok here => lookupsFrom system purpose linkLimit here path.names path.endsInSlash

/-- Whether the resolution of a path looks up the entry at a location or one below it. -/
def PassesThrough (system : FileSystem) (purpose : Purpose) (path : Path)
    (location : Location) : Prop :=
  ∃ entry ∈ system.lookedUp purpose path, location <+: entry

instance (system : FileSystem) (purpose : Purpose) (path : Path) (location : Location) :
    Decidable (system.PassesThrough purpose path location) :=
  inferInstanceAs (Decidable (∃ entry ∈ system.lookedUp purpose path, location <+: entry))

/-- Where a resolution ends once the node at a location and all below it are gone. -/
def Spot.without (location : Location) : Spot → Spot
  | occupied place => occupied (place.without location)
  | vacant directory name => vacant directory name

/-! ## Places below a location that is taken away -/

theorem not_prefix_dropLast {location : Location} (belowRoot : location ≠ []) :
    ¬ location <+: location.dropLast := by
  intro inside
  have shorter := inside.length_le
  have positive := List.length_pos_iff.mpr belowRoot
  rw [List.length_dropLast] at shorter
  omega

theorem not_prefix_directory (directory : Location) (name : Name) :
    ¬ directory ++ [name] <+: directory := by
  intro inside
  have shorter := inside.length_le
  rw [List.length_append, List.length_singleton] at shorter
  omega

theorem Place.without_of_outside {location : Location} {place : Place}
    (outside : ¬ location <+: place.anchor) : place.without location = place := by
  cases place <;> simp_all [without, anchor]

theorem Place.without_live {location here : Location} (outside : ¬ location <+: here) :
    (Place.live here).without location = .live here :=
  without_of_outside outside

theorem Place.not_prefix_anchor_without {location : Location} (belowRoot : location ≠ [])
    (place : Place) : ¬ location <+: (place.without location).anchor := by
  rw [anchor_without]
  split
  · exact not_prefix_dropLast belowRoot
  · assumption

theorem Place.without_without {location : Location} (belowRoot : location ≠ []) (place : Place) :
    (place.without location).without location = place.without location :=
  without_of_outside (not_prefix_anchor_without belowRoot place)

/-- The way up from a place is the same whether or not the place is still in the tree. -/
theorem Place.parent_without (location : Location) (belowRoot : location ≠ []) (place : Place) :
    (place.without location).parent = place.parent.without location := by
  cases place with
  | live here =>
      by_cases inside : location <+: here
      · by_cases same : location = here
        · subst same
          simp [without, parent, not_prefix_dropLast belowRoot]
        · rcases inside with ⟨rest, rfl⟩
          have more : rest ≠ [] := by simpa using same
          have size := List.length_pos_iff.mpr more
          have between : (location ++ rest).length - location.length = (rest.length - 1) + 1 := by
            rw [List.length_append]
            omega
          simp only [without, List.prefix_append, if_true, between, parent,
            List.dropLast_append_of_ne_nil more]
          simp
      · have outside : ¬ location <+: here.dropLast := fun above =>
          inside (above.trans (List.dropLast_prefix here))
        simp [without, parent, inside, outside]
  | removed between above =>
      by_cases inside : location <+: above
      · cases between with
        | zero => simp [without, parent, inside]
        | succ between =>
            have shape : between + 1 + (above.length - location.length) + 1 =
                (between + (above.length - location.length) + 1) + 1 := by
              omega
            simp only [without, parent, inside, if_true, shape]
      · cases between <;> simp [without, parent, inside]

/-- The way up from a place is the same whether or not the place is still in the tree. -/
theorem Place.parent_withoutBelow (location : Location) (place : Place) :
    (place.withoutBelow location).parent = place.parent.withoutBelow location := by
  cases place with
  | live here =>
      by_cases inside : location <+: here ∧ here ≠ location
      · rcases inside with ⟨⟨rest, rfl⟩, differs⟩
        have more : rest ≠ [] := by simpa using differs
        have size := List.length_pos_iff.mpr more
        have gap : (location ++ rest).length - location.length - 1 = rest.length - 1 := by
          rw [List.length_append]
          omega
        have above : (location ++ rest).dropLast = location ++ rest.dropLast :=
          List.dropLast_append_of_ne_nil more
        rw [withoutBelow, if_pos ⟨List.prefix_append .., differs⟩, gap]
        show _ = (live (location ++ rest).dropLast).withoutBelow location
        rw [above, withoutBelow]
        cases last : rest.dropLast with
        | nil =>
            have short : rest.length - 1 = 0 := by
              rw [← List.length_dropLast, last, List.length_nil]
            simp [short, parent]
        | cons name others =>
            have longer : rest.length - 1 = others.length + 1 := by
              rw [← List.length_dropLast, last, List.length_cons]
            simp [longer, parent]
      · have outside : ¬ (location <+: here.dropLast ∧ here.dropLast ≠ location) := by
          rintro ⟨below, differs⟩
          have shorter := below.trans (List.dropLast_prefix here)
          refine inside ⟨shorter, ?_⟩
          rintro rfl
          have size := below.length_le
          rw [List.length_dropLast] at size
          have empty : here.length = 0 := by omega
          exact differs (by rw [List.length_eq_zero_iff.mp empty]; rfl)
        rw [withoutBelow, if_neg inside]
        show live here.dropLast = (live here.dropLast).withoutBelow location
        rw [withoutBelow, if_neg outside]
  | removed between above =>
      by_cases inside : location <+: above ∧ above ≠ location
      · have longer : location.length < above.length := by
          apply Nat.lt_of_le_of_ne inside.1.length_le
          intro same
          exact inside.2 (inside.1.eq_of_length same).symm
        cases between with
        | zero =>
            have size : 0 + (above.length - location.length) =
                (above.length - location.length - 1) + 1 := by
              omega
            simp only [withoutBelow, if_pos inside, size, parent]
        | succ between =>
            have size : between + 1 + (above.length - location.length) =
                (between + (above.length - location.length)) + 1 := by
              omega
            simp only [withoutBelow, if_pos inside, size, parent]
      · cases between <;> simp only [withoutBelow, if_neg inside, parent]

/-! ## Resolutions that pass by a location -/

/-- What becomes of places while nothing outside a location is taken out of the tree. -/
structure Moves (location : Location) (move : Place → Place) : Prop where
  belowRoot : location ≠ []
  parent : ∀ place, (move place).parent = move place.parent
  stays : ∀ here, ¬ location <+: here → move (.live here) = .live here
  removed : ∀ between above, ∃ later higher, move (.removed between above) = .removed later higher

theorem moves_without {location : Location} (belowRoot : location ≠ []) :
    Moves location (Place.without location) where
  belowRoot := belowRoot
  parent := Place.parent_without location belowRoot
  stays _ outside := Place.without_live outside
  removed between above := by
    by_cases inside : location <+: above
    · exact ⟨_, _, if_pos inside⟩
    · exact ⟨_, _, if_neg inside⟩

theorem moves_withoutBelow {location : Location} (belowRoot : location ≠ []) :
    Moves location (Place.withoutBelow location) where
  belowRoot := belowRoot
  parent := Place.parent_withoutBelow location
  stays here outside := if_neg fun inside => outside inside.1
  removed between above := by
    by_cases inside : location <+: above ∧ above ≠ location
    · exact ⟨_, _, if_pos inside⟩
    · exact ⟨_, _, if_neg inside⟩

theorem moves_id {location : Location} (belowRoot : location ≠ []) : Moves location id where
  belowRoot := belowRoot
  parent _ := rfl
  stays _ _ := rfl
  removed between above := ⟨between, above, rfl⟩

/-- Where a resolution ends once places have been moved. -/
def Spot.moved (move : Place → Place) : Spot → Spot
  | occupied place => occupied (move place)
  | vacant directory name => vacant directory name

theorem Spot.moved_without (location : Location) :
    Spot.moved (Place.without location) = Spot.without location := by
  funext spot
  cases spot <;> rfl

/-- Whether an entry lies outside a location and is the same in two file systems. -/
structure SeenAlike (first second : FileSystem) (location entry : Location) : Prop where
  outside : ¬ location <+: entry
  same : second.node? entry = first.node? entry

variable {first second : FileSystem} {location : Location} {move : Place → Place}

theorem SeenAlike.outside_directory {directory : Location} {name : Name}
    (seen : SeenAlike first second location (directory ++ [name])) : ¬ location <+: directory :=
  fun inside => seen.outside (inside.trans (List.prefix_append ..))

theorem descend_moved {purpose : Purpose} {before after : Following} {tracing : Tracing}
    (moves : Moves location move)
    (follows : ∀ here target rest slash, ¬ location <+: here →
      (∀ entry ∈ tracing here target rest slash, SeenAlike first second location entry) →
      after here target rest slash = (before here target rest slash).map (Spot.moved move))
    {here : Place} {names : List Name} {slash : Bool}
    (seen : ∀ entry ∈ lookups first purpose tracing here names slash,
      SeenAlike first second location entry) :
    descend second purpose after (move here) names slash =
      (descend first purpose before here names slash).map (Spot.moved move) := by
  induction names generalizing here with
  | nil =>
      simp [descend, Except.map, Spot.moved]
  | cons name rest hypothesis =>
      simp only [descend, lookups] at seen ⊢
      split
      · next isSelf =>
        rw [if_pos isSelf] at seen
        exact hypothesis seen
      next neSelf =>
      rw [if_neg neSelf] at seen
      split
      · next isParent =>
        rw [if_pos isParent] at seen
        rw [moves.parent]
        exact hypothesis seen
      next neParent =>
      rw [if_neg neParent] at seen
      split
      · rfl
      next goesOn =>
      rw [if_neg goesOn] at seen
      cases here with
      | removed between above =>
          rcases moves.removed between above with ⟨later, higher, gone⟩
          rw [gone]
          rfl
      | live directory =>
          have there := seen _ (List.mem_cons_self ..)
          have later : ∀ entry ∈ _, SeenAlike first second location entry := fun entry member =>
            seen entry (List.mem_cons_of_mem _ member)
          rw [moves.stays _ there.outside_directory]
          simp only [there.same]
          split
          · rfl
          split
          · split <;> rfl
          · next found =>
            rw [found] at later
            rw [← hypothesis later, moves.stays _ there.outside]
          · next target found =>
            rw [found] at later
            split
            · simp [Except.map, Spot.moved, moves.stays _ there.outside]
            · next follow =>
              simp only [if_neg follow] at later
              exact follows _ _ _ _ there.outside_directory later
          · split
            · simp [Except.map, Spot.moved, moves.stays _ there.outside]
            · rfl

theorem lookups_moved {purpose : Purpose} {before after : Tracing} (moves : Moves location move)
    (follows : ∀ here target rest slash, ¬ location <+: here →
      (∀ entry ∈ before here target rest slash, SeenAlike first second location entry) →
      after here target rest slash = before here target rest slash)
    {here : Place} {names : List Name} {slash : Bool}
    (seen : ∀ entry ∈ lookups first purpose before here names slash,
      SeenAlike first second location entry) :
    lookups second purpose after (move here) names slash =
      lookups first purpose before here names slash := by
  induction names generalizing here with
  | nil =>
      rfl
  | cons name rest hypothesis =>
      simp only [lookups] at seen ⊢
      split
      · next isSelf =>
        rw [if_pos isSelf] at seen
        exact hypothesis seen
      next neSelf =>
      rw [if_neg neSelf] at seen
      split
      · next isParent =>
        rw [if_pos isParent] at seen
        rw [moves.parent]
        exact hypothesis seen
      next neParent =>
      rw [if_neg neParent] at seen
      split
      · rfl
      next goesOn =>
      rw [if_neg goesOn] at seen
      cases here with
      | removed between above =>
          rcases moves.removed between above with ⟨later, higher, gone⟩
          rw [gone]
      | live directory =>
          have there := seen _ (List.mem_cons_self ..)
          have later : ∀ entry ∈ _, SeenAlike first second location entry := fun entry member =>
            seen entry (List.mem_cons_of_mem _ member)
          rw [moves.stays _ there.outside_directory]
          simp only [there.same, List.cons.injEq, true_and]
          split
          · next found =>
            rw [found] at later
            rw [← hypothesis later, moves.stays _ there.outside]
          · next target found =>
            rw [found] at later
            split
            · rfl
            · next follow =>
              simp only [if_neg follow] at later
              exact follows _ _ _ _ there.outside_directory later
          · rfl

/-- From a moved place, everything that a resolution sees decides its end as before. -/
theorem resolveFrom_moved {purpose : Purpose} {links : Nat} (moves : Moves location move)
    {here : Place} {names : List Name} {slash : Bool}
    (seen : ∀ entry ∈ lookupsFrom first purpose links here names slash,
      SeenAlike first second location entry) :
    resolveFrom second purpose links (move here) names slash =
        (resolveFrom first purpose links here names slash).map (Spot.moved move) ∧
      lookupsFrom second purpose links (move here) names slash =
        lookupsFrom first purpose links here names slash := by
  induction links generalizing here names slash with
  | zero =>
      constructor
      · refine descend_moved moves ?_ seen
        intro _ _ _ _ _ _
        rfl
      · refine lookups_moved moves ?_ seen
        intro _ _ _ _ _ _
        rfl
  | succ links hypothesis =>
      have entered : ∀ (target : Path) (next : Location), ¬ location <+: next →
          move (.live (if target.isAbsolute then [] else next)) =
            .live (if target.isAbsolute then [] else next) := by
        intro target next outside
        apply moves.stays
        split
        · simpa using moves.belowRoot
        · exact outside
      constructor
      · refine descend_moved moves ?_ seen
        intro next target rest slash outside later
        simpa only [entered target next outside] using (hypothesis later).1
      · refine lookups_moved moves ?_ seen
        intro next target rest slash outside later
        simpa only [entered target next outside] using (hypothesis later).2

theorem start_moved (moves : Moves location move)
    (places : second.workingDirectory = move first.workingDirectory) (path : Path) :
    second.start path = (first.start path).map move := by
  have root : move (.live []) = .live [] := moves.stays [] (by simpa using moves.belowRoot)
  simp only [start, places]
  split
  · rfl
  split
  · rfl
  split
  · simp [Except.map, root]
  · rfl

/-- A resolution that sees the same entries as before ends where it ended, and looks up the same. -/
theorem resolve_moved {purpose : Purpose} {path : Path} (moves : Moves location move)
    (places : second.workingDirectory = move first.workingDirectory)
    (seen : ∀ entry ∈ first.lookedUp purpose path, SeenAlike first second location entry) :
    second.resolve purpose path = (first.resolve purpose path).map (Spot.moved move) ∧
      second.lookedUp purpose path = first.lookedUp purpose path := by
  have begins := start_moved moves places path
  rw [lookedUp] at seen
  rw [resolve, resolve, lookedUp, lookedUp, begins]
  cases start : first.start path with
  | error refusal =>
      refine ⟨?_, rfl⟩
      split <;> rfl
  | ok here =>
      rw [start] at seen
      rcases resolveFrom_moved moves seen with ⟨resolved, looked⟩
      simp only [Except.map, resolved, looked]
      refine ⟨?_, trivial⟩
      split
      · rfl
      · cases resolveFrom first purpose linkLimit here path.names path.endsInSlash <;> rfl

theorem not_prefix_of_passing_by {purpose : Purpose} {path : Path}
    (passesBy : ¬ first.PassesThrough purpose path location) {entry : Location}
    (member : entry ∈ first.lookedUp purpose path) : ¬ location <+: entry :=
  fun inside => passesBy ⟨entry, member, inside⟩

theorem seenAlike_of_passing_by {purpose : Purpose} {path : Path}
    (same : ∀ entry ∈ first.lookedUp purpose path, ¬ location <+: entry →
      second.node? entry = first.node? entry)
    (passesBy : ¬ first.PassesThrough purpose path location) :
    ∀ entry ∈ first.lookedUp purpose path, SeenAlike first second location entry := by
  intro entry member
  have outside := not_prefix_of_passing_by passesBy member
  exact ⟨outside, same entry member outside⟩

/--
A path that passes by a location is resolved alike whatever stands there, up to the fact that a
directory in which it ends may be gone.
-/
theorem resolve_without {purpose : Purpose} {path : Path}
    (belowRoot : location ≠ [])
    (same : ∀ entry ∈ first.lookedUp purpose path, ¬ location <+: entry →
      second.node? entry = first.node? entry)
    (places : second.workingDirectory = first.workingDirectory.without location)
    (passesBy : ¬ first.PassesThrough purpose path location) :
    second.resolve purpose path = (first.resolve purpose path).map (Spot.without location) := by
  rw [← Spot.moved_without]
  exact (resolve_moved (moves_without belowRoot) places
    (seenAlike_of_passing_by same passesBy)).1

/-! ## What a resolution ends at -/

/-- The place where a resolution ends, or where something new would stand. -/
def Spot.place : Spot → Place
  | occupied place => place
  | vacant directory name => .live (directory ++ [name])

section Steps

variable {system : FileSystem} {purpose : Purpose} {tracing : Tracing} {slash : Bool}
  {directory : Location} {name : Name} {rest : List Name}

theorem entry_mem_lookups (enters : Enters purpose slash name rest) :
    directory ++ [name] ∈
      lookups system purpose tracing (.live directory) (name :: rest) slash := by
  rw [lookups, if_neg enters.neSelf, if_neg enters.neParent, if_neg enters.goesOn]
  exact List.mem_cons_self ..

theorem lookups_inside (enters : Enters purpose slash name rest)
    (stands : system.node? (directory ++ [name]) = some .directory) :
    lookups system purpose tracing (.live directory) (name :: rest) slash =
      (directory ++ [name]) ::
        lookups system purpose tracing (.live (directory ++ [name])) rest slash := by
  rw [lookups, if_neg enters.neSelf, if_neg enters.neParent, if_neg enters.goesOn]
  simp only [stands]

theorem lookups_followed {target : Path} (enters : Enters purpose slash name rest)
    (stands : system.node? (directory ++ [name]) = some (.link target))
    (leads : ¬ (rest = [] ∧ purpose = .entry)) :
    lookups system purpose tracing (.live directory) (name :: rest) slash =
      (directory ++ [name]) :: tracing directory target rest slash := by
  rw [lookups, if_neg enters.neSelf, if_neg enters.neParent, if_neg enters.goesOn]
  simp only [stands, if_neg leads]

end Steps

/-- A descent ends at a directory or at an entry that it has looked up. -/
theorem Descends.mem_lookups {system : FileSystem} (wellFormed : system.WellFormed)
    {purpose : Purpose} {following : Following} {tracing : Tracing}
    (follows : ∀ here target rest slash spot, system.node? here = some .directory →
      following here target rest slash = .ok spot →
      system.nodeAt? spot.place = some .directory ∨
        ∃ entry ∈ tracing here target rest slash, spot.place = .live entry)
    {here : Place} {names : List Name} {slash : Bool} {spot : Spot}
    (stands : system.node? here.anchor = some .directory)
    (descends : Descends system purpose following slash here names spot) :
    system.nodeAt? spot.place = some .directory ∨
      ∃ entry ∈ lookups system purpose tracing here names slash, spot.place = .live entry := by
  induction descends with
  | done =>
      exact .inl (nodeAt?_of_anchor stands)
  | self later hypothesis =>
      simpa only [lookups, if_true] using hypothesis stands
  | parent later hypothesis =>
      simpa only [lookups, if_neg parentName_ne_selfName, if_true] using
        hypothesis (wellFormed.anchor_parent stands)
  | missing enters vacant =>
      exact .inr ⟨_, entry_mem_lookups enters, rfl⟩
  | inside enters found later hypothesis =>
      rw [lookups_inside enters found]
      rcases hypothesis found with isDirectory | ⟨entry, member, same⟩
      · exact .inl isDirectory
      · exact .inr ⟨entry, List.mem_cons_of_mem _ member, same⟩
  | kept enters found entry =>
      exact .inr ⟨_, entry_mem_lookups enters, rfl⟩
  | followed enters found leads later =>
      rw [lookups_followed enters found leads]
      rcases follows _ _ _ _ _ stands later with isDirectory | ⟨entry, member, same⟩
      · exact .inl isDirectory
      · exact .inr ⟨entry, List.mem_cons_of_mem _ member, same⟩
  | leaf enters found noDirectory noLink bare =>
      exact .inr ⟨_, entry_mem_lookups enters, rfl⟩

theorem resolveFrom_mem_lookups {system : FileSystem} (wellFormed : system.WellFormed)
    {purpose : Purpose} {links : Nat} {here : Place} {names : List Name} {slash : Bool}
    {spot : Spot} (stands : system.node? here.anchor = some .directory)
    (ends : resolveFrom system purpose links here names slash = .ok spot) :
    system.nodeAt? spot.place = some .directory ∨
      ∃ entry ∈ lookupsFrom system purpose links here names slash, spot.place = .live entry := by
  induction links generalizing here names slash spot with
  | zero =>
      refine Descends.mem_lookups wellFormed ?_ stands (descend_eq_ok_iff.mp ends)
      intro _ _ _ _ _ _ impossible
      cases impossible
  | succ links hypothesis =>
      refine Descends.mem_lookups wellFormed ?_ stands (descend_eq_ok_iff.mp ends)
      intro next target rest slash spot nextStands follows
      refine hypothesis ?_ follows
      simp only [Place.anchor]
      split
      · simp
      · exact nextStands

/-- A resolution ends at a directory or at an entry that it has looked up. -/
theorem resolve_mem_lookedUp {system : FileSystem} (wellFormed : system.WellFormed)
    {purpose : Purpose} {path : Path} {spot : Spot}
    (ends : system.resolve purpose path = .ok spot) :
    system.nodeAt? spot.place = some .directory ∨
      ∃ entry ∈ system.lookedUp purpose path, spot.place = .live entry := by
  rcases resolve_eq_ok_iff.mp ends with ⟨_, here, begins, reached⟩
  rw [lookedUp, begins]
  exact resolveFrom_mem_lookups wellFormed (start_holds wellFormed begins) reached

/-- Where a resolution passes by a location and ends at no directory, it is not affected at all. -/
theorem resolve_passing_by (wellFormed : first.WellFormed) {purpose : Purpose} {path : Path}
    {spot : Spot} (belowRoot : location ≠ [])
    (same : ∀ entry ∈ first.lookedUp purpose path, ¬ location <+: entry →
      second.node? entry = first.node? entry)
    (places : second.workingDirectory = first.workingDirectory.without location)
    (passesBy : ¬ first.PassesThrough purpose path location)
    (ends : first.resolve purpose path = .ok spot)
    (noDirectory : first.nodeAt? spot.place ≠ some .directory) :
    second.resolve purpose path = .ok spot ∧
      ∃ entry, spot.place = .live entry ∧ ¬ location <+: entry := by
  rcases (resolve_mem_lookedUp wellFormed ends).resolve_left noDirectory with
    ⟨entry, member, there⟩
  have outside := not_prefix_of_passing_by passesBy member
  refine ⟨?_, entry, there, outside⟩
  rw [resolve_without belowRoot same places passesBy, ends]
  cases spot with
  | occupied place =>
      cases there
      simp [Except.map, Spot.without, Place.without_live outside]
  | vacant directory name =>
      rfl

/-- A directory is one still when what stands at another location is exchanged or taken away. -/
theorem nodeAt?_without
    (same : ∀ other, ¬ location <+: other → second.node? other = first.node? other)
    {place : Place} (stands : first.nodeAt? place = some .directory) :
    second.nodeAt? (place.without location) = some .directory := by
  cases place with
  | removed between above =>
      simp only [Place.without]
      split <;> rfl
  | live entry =>
      by_cases inside : location <+: entry
      · simp [Place.without, inside, nodeAt?]
      · rw [Place.without_live inside, nodeAt?_live, same entry inside]
        exact stands

/-- The same is true the other way around. -/
theorem resolve_of_passing_by (wellFormed : first.WellFormed) {purpose : Purpose} {path : Path}
    {spot : Spot} (belowRoot : location ≠ [])
    (same : ∀ other, ¬ location <+: other → second.node? other = first.node? other)
    (places : second.workingDirectory = first.workingDirectory.without location)
    (passesBy : ¬ first.PassesThrough purpose path location)
    (ends : second.resolve purpose path = .ok spot)
    (noDirectory : second.nodeAt? spot.place ≠ some .directory) :
    first.resolve purpose path = .ok spot ∧
      ∃ entry, spot.place = .live entry ∧ ¬ location <+: entry := by
  have seen : ∀ entry ∈ first.lookedUp purpose path, ¬ location <+: entry →
      second.node? entry = first.node? entry := fun entry _ => same entry
  have related := resolve_without belowRoot seen places passesBy
  cases before : first.resolve purpose path with
  | error fault =>
      rw [before, ends] at related
      cases related
  | ok earlier =>
      have noEarlier : first.nodeAt? earlier.place ≠ some .directory := by
        intro stands
        apply noDirectory
        rw [before, ends] at related
        cases related
        cases earlier with
        | vacant directory name =>
            rcases resolve_holds wellFormed before with ⟨-, vacant, -⟩
            rw [Spot.place, nodeAt?_live, vacant] at stands
            cases stands
        | occupied place =>
            exact nodeAt?_without same stands
      rcases resolve_passing_by wellFormed belowRoot seen places passesBy before noEarlier with
        ⟨after, there⟩
      rw [ends] at after
      cases after
      exact ⟨rfl, there⟩

/-! ## Resolutions of what has been opened -/

theorem locate_eq_ok_iff {system : FileSystem} {path : Path} {place : Place} :
    system.locate path = .ok place ↔ system.resolve .target path = .ok (.occupied place) := by
  rw [locate]
  cases system.resolve .target path with
  | error fault =>
      simp [Bind.bind, Except.bind]
  | ok spot =>
      cases spot <;> simp [Bind.bind, Except.bind]

/-- A descent comes to what has been opened as long as everything on its way stays. -/
theorem Descends.target {purpose : Purpose} {before after : Following} {spot : Spot}
    (keeps : ∀ location node, first.node? location = some node →
      second.node? location = some node)
    (follows : ∀ here target rest slash, before here target rest slash = .ok spot →
      after here target rest slash = .ok (.occupied spot.place))
    (followsLinks : purpose ≠ .entry)
    (filled : ∀ directory name, spot = .vacant directory name →
      purpose = .creation ∧ ∃ id, second.node? (directory ++ [name]) = some (.file id))
    {here : Place} {names : List Name} {slash : Bool}
    (descends : Descends first purpose before slash here names spot) :
    Descends second .target after slash here names (.occupied spot.place) := by
  induction descends with
  | done =>
      exact .done
  | self later hypothesis =>
      exact .self (hypothesis follows filled)
  | parent later hypothesis =>
      exact .parent (hypothesis follows filled)
  | missing enters vacant =>
      rcases filled _ _ rfl with ⟨creates, id, stands⟩
      have noSlash : slash = false := by
        cases slash with
        | false =>
            rfl
        | true =>
            exact absurd ⟨rfl, rfl, creates⟩ enters.goesOn
      exact .leaf (enters.of_enters (by simp)) stands (by simp) (by simp) (.inr noSlash)
  | inside enters stands later hypothesis =>
      exact .inside (enters.of_enters (by simp)) (keeps _ _ stands) (hypothesis follows filled)
  | kept enters stands entry =>
      exact absurd entry followsLinks
  | followed enters stands leads later =>
      exact .followed (enters.of_enters (by simp)) (keeps _ _ stands) (by simp)
        (follows _ _ _ _ later)
  | leaf enters stands noDirectory noLink bare =>
      exact .leaf (enters.of_enters (by simp)) (keeps _ _ stands) noDirectory noLink
        (.inr (bare.resolve_left followsLinks))

theorem resolveFrom_target {purpose : Purpose} {links : Nat} {spot : Spot}
    (keeps : ∀ location node, first.node? location = some node →
      second.node? location = some node)
    (followsLinks : purpose ≠ .entry)
    (filled : ∀ directory name, spot = .vacant directory name →
      purpose = .creation ∧ ∃ id, second.node? (directory ++ [name]) = some (.file id))
    {here : Place} {names : List Name} {slash : Bool}
    (ends : resolveFrom first purpose links here names slash = .ok spot) :
    resolveFrom second .target links here names slash = .ok (.occupied spot.place) := by
  induction links generalizing here names slash with
  | zero =>
      refine descend_of_descends
        (.target keeps ?_ followsLinks filled (descend_eq_ok_iff.mp ends))
      intro _ _ _ _ impossible
      cases impossible
  | succ links hypothesis =>
      exact descend_of_descends (.target keeps (fun _ _ _ _ follows => hypothesis follows)
        followsLinks filled (descend_eq_ok_iff.mp ends))

/--
A path that could be opened means what was opened as long as everything on its way stays, and the
file that was missing has been made.
-/
theorem locate_of_resolve {purpose : Purpose} {path : Path} {spot : Spot}
    (keeps : ∀ location node, first.node? location = some node →
      second.node? location = some node)
    (places : second.workingDirectory = first.workingDirectory)
    (followsLinks : purpose ≠ .entry)
    (filled : ∀ directory name, spot = .vacant directory name →
      purpose = .creation ∧ ∃ id, second.node? (directory ++ [name]) = some (.file id))
    (ends : first.resolve purpose path = .ok spot) :
    second.locate path = .ok spot.place := by
  rcases resolve_eq_ok_iff.mp ends with ⟨clean, here, begins, reached⟩
  have starts : second.start path = .ok here := by simpa [start, places] using begins
  rw [locate_eq_ok_iff, resolve_eq_ok_iff]
  exact ⟨clean, here, starts, resolveFrom_target keeps followsLinks filled reached⟩

end BundlePacker.FileSystem
