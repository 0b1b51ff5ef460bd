import Mathlib.Data.List.Basic
import BundlePacker.FileSystem.Difference
import BundlePacker.Proofs.FileSystem.Lookup
import BundlePacker.Proofs.FileSystem.PathOf

/-!
# What a walk finds

A walk lists what stands below a location by ascending location, and so the list is decided by its
members.  The path that it gives a file is the root's path with the names of the file joined to it,
and below the root it has exactly these names as its components.

A root may be a link.  The main statement says that a walk at any path that means a directory lists
that directory.
-/

namespace BundlePacker.FileSystem

open BundlePacker.Path (joinSegments)

/-! ## The order of what stands below a location -/

theorem ordered_below (system : FileSystem) (location : Location) :
    (system.below location).Pairwise fun one other => compare one.1 other.1 = .lt :=
  (Std.ExtTreeMap.ordered_keys_toList).filter _

theorem nodup_of_ordered {listed : List (Location × Node)}
    (ordered : listed.Pairwise fun one other => compare one.1 other.1 = .lt) : listed.Nodup := by
  apply ordered.imp
  rintro one other before rfl
  simp at before

/-- An ascending list of what stands below a location is the only one. -/
theorem below_eq {system : FileSystem} {location : Location} {listed : List (Location × Node)}
    (ordered : listed.Pairwise fun one other => compare one.1 other.1 = .lt)
    (same : ∀ pair, pair ∈ system.below location ↔ pair ∈ listed) :
    system.below location = listed := by
  have permuted : (system.below location).Perm listed :=
    (List.perm_ext_iff_of_nodup (nodup_of_ordered (ordered_below system location))
      (nodup_of_ordered ordered)).mpr same
  refine permuted.eq_of_pairwise ?_ (ordered_below system location) ordered
  intro one other _ _ before after
  exact absurd after (Std.OrientedCmp.not_lt_of_lt before)

theorem compare_append (location first second : Location) :
    compare (location ++ first) (location ++ second) = compare first second := by
  induction location with
  | nil =>
      rfl
  | cons name others hypothesis =>
      simpa using hypothesis

/-! ## The paths of what is found -/

/-- The path of what lies below a root is the root's path with the names joined to it. -/
theorem pathBelow_eq_join (root : Path) {names : List Name} (more : names ≠ [])
    (pieces : ∀ name ∈ names, IsSegment name) :
    pathBelow root names = root.join ⟨joinSegments names⟩ := by
  induction names generalizing root with
  | nil =>
      exact absurd rfl more
  | cons name others hypothesis =>
      have solid : IsSegment name := pieces name (List.mem_cons_self ..)
      have later : ∀ other ∈ others, IsSegment other := fun other member =>
        pieces other (List.mem_cons_of_mem _ member)
      have single : ∀ other ∈ [name], IsSegment other := by
        simpa using solid
      show pathBelow (root.join ⟨name⟩) others = _
      by_cases last : others = []
      · subst last
        rfl
      · rw [hypothesis _ last later, Path.joinSegments_cons name last]
        exact Path.join_join root solid.nonempty (endsInSlash_of_isSegment solid)
          (isAbsolute_joinSegments single) (isAbsolute_joinSegments later)

theorem pathBelow_pathOf {location : Location} {names : List Name}
    (pieces : ∀ name ∈ location ++ names, IsSegment name) :
    pathBelow (pathOf location) names = pathOf (location ++ names) := by
  by_cases none : names = []
  · subst none
    rw [List.append_nil]
    rfl
  · rw [pathBelow_eq_join _ none fun name member =>
      pieces name (List.mem_append_right _ member)]
    exact join_pathOf none pieces

theorem ofSegment?_of_isSegment {name : Bytes} (solid : IsSegment name) :
    Path.Component.ofSegment? name = some (.name name) := by
  have kept : ¬ (name = [] ∨ name = [Path.dot]) := by
    rintro (empty | self)
    · exact solid.nonempty empty
    · exact solid.neSelf self
  have inner : name ≠ [Path.dot, Path.dot] := solid.neParent
  simp [Path.Component.ofSegment?, kept, inner]

theorem components_pathBelow {root : Path} (nonempty : root.bytes ≠ []) {names : List Name}
    (pieces : ∀ name ∈ names, IsSegment name) :
    (pathBelow root names).components = root.components ++ names.map .name := by
  by_cases none : names = []
  · subst none
    simp [pathBelow]
  · have segments : Path.segments (joinSegments names) = names :=
      Path.segments_joinSegments none fun name member => (pieces name member).noSlash
    rw [pathBelow_eq_join root none pieces,
      Path.components_join nonempty (isAbsolute_joinSegments pieces), segments]
    congr 1
    rw [List.filterMap_eq_map_iff_forall_eq_some]
    exact fun name member => ofSegment?_of_isSegment (pieces name member)

/-- The components of what lies below a root are its names. -/
theorem below?_pathBelow {root : Path} (nonempty : root.bytes ≠ []) {names : List Name}
    (pieces : ∀ name ∈ names, IsSegment name) :
    root.below? (pathBelow root names) = some (names.map .name) :=
  Path.afterPrefix?_eq_some_iff.mpr (components_pathBelow nonempty pieces)

/-! ## Roots that are links -/

variable {system : FileSystem}

/-- Whether something ends at a place, or at a link that is kept and could be followed there. -/
def EndsAt (system : FileSystem) (place : Place) (ending : Except Refusal Spot) : Prop :=
  ending = .ok (.occupied place) ∨
    ∃ location target, ending = .ok (.occupied (.live location)) ∧
      system.node? location = some (.link target)

theorem Descends.endsAt {before after : Following} {place : Place}
    (follows : ∀ here target rest slash, rest ≠ [] →
      before here target rest slash = .ok (.occupied place) →
      system.EndsAt place (after here target rest slash))
    {here : Place} {names : List Name} {slash : Bool}
    (descends : Descends system .target before slash here names (.occupied place)) :
    system.EndsAt place (descend system .entry after here names slash) := by
  generalize same : Spot.occupied place = spot at descends
  induction descends with
  | done =>
      cases same
      exact .inl rfl
  | self later hypothesis =>
      rw [descend_self]
      exact hypothesis same
  | parent later hypothesis =>
      rw [descend_parent]
      exact hypothesis same
  | missing enters vacant =>
      cases same
  | inside enters stands later hypothesis =>
      rw [descend_inside (enters.of_enters (by simp)) stands]
      exact hypothesis same
  | kept enters stands entry =>
      cases entry
  | @followed directory name rest target spot enters stands leads later =>
      have entered : Enters .entry slash name rest := enters.of_enters (by simp)
      by_cases last : rest = []
      · subst last
        right
        exact ⟨_, target, descend_of_descends (.kept entered stands rfl), stands⟩
      · rw [descend_followed entered stands (by simp [last])]
        subst same
        exact follows _ _ _ _ last later
  | leaf enters stands noDirectory noLink bare =>
      cases same
      left
      exact descend_of_descends
        (.leaf (enters.of_enters (by simp)) stands noDirectory noLink (.inl rfl))

theorem resolveFrom_entry {links : Nat} {here place : Place} {names : List Name} {slash : Bool}
    (ends : resolveFrom system .target links here names slash = .ok (.occupied place)) :
    system.EndsAt place (resolveFrom system .entry links here names slash) := by
  induction links generalizing here names slash with
  | zero =>
      refine Descends.endsAt ?_ (descend_eq_ok_iff.mp ends)
      intro _ _ _ _ _ impossible
      cases impossible
  | succ links hypothesis =>
      refine Descends.endsAt ?_ (descend_eq_ok_iff.mp ends)
      intro next target rest slash more follows
      simp only [if_neg more] at follows ⊢
      exact hypothesis follows

/-- A path names what it means, unless its last entry is a link. -/
theorem locateEntry_of_locate {path : Path} {place : Place}
    (found : system.locate path = .ok place) :
    system.locateEntry path = .ok place ∨
      ∃ location target, system.locateEntry path = .ok (.live location) ∧
        system.node? location = some (.link target) := by
  have target := locate_eq_ok_iff.mp found
  by_cases slash : path.endsInSlash = true
  · left
    rw [locateEntry]
    simp only [slash, if_true, target]
    rfl
  · rcases resolve_eq_ok_iff.mp target with ⟨clean, here, begins, reached⟩
    have resolved : ∀ spot,
        resolveFrom system .entry linkLimit here path.names path.endsInSlash = .ok spot →
        system.resolve .entry path = .ok spot :=
      fun spot ends => resolve_eq_ok_iff.mpr ⟨clean, here, begins, ends⟩
    rcases resolveFrom_entry reached with ends | ⟨location, link, ends, stands⟩
    · left
      simp [locateEntry, slash, resolved _ ends, Bind.bind, Except.bind]
    · right
      refine ⟨location, link, ?_, stands⟩
      simp [locateEntry, slash, resolved _ ends, Bind.bind, Except.bind]

/-- A walk at a path that means a directory lists what is in the directory. -/
theorem walk_of_locate {root : Path} {place : Place} (found : system.locate root = .ok place)
    (stands : system.nodeAt? place = some .directory) :
    system.walk root =
      match place with
      | .removed _ _ => .ok []
      | .live location => .ok (system.foundIn root location) := by
  rcases locateEntry_of_locate found with entry | ⟨location, target, entry, link⟩
  · cases place with
    | removed between above =>
        simp [walk, Bind.bind, Except.bind, entry]
    | live location =>
        rw [nodeAt?_live] at stands
        simp [walk, Bind.bind, Except.bind, entry, stands]
  · cases place with
    | removed between above =>
        simp [walk, Bind.bind, Except.bind, entry, link, found]
    | live top =>
        rw [nodeAt?_live] at stands
        simp [walk, Bind.bind, Except.bind, entry, link, found, stands]

/-! ## The files in a tree -/

/-- The regular files strictly below a place, each with the names that lead there, in order. -/
def filesBelow (system : FileSystem) : Place → List (List Name × Nat)
  | .removed _ _ => []
  | .live top =>
    (system.below top).filterMap fun pair =>
      match pair.2 with
      | .file id => some (pair.1.drop top.length, id)
      | _ => none

theorem mem_filesBelow {place : Place} {names : List Name} {id : Nat} :
    (names, id) ∈ system.filesBelow place ↔
      names ≠ [] ∧ ∃ top, place = .live top ∧ system.node? (top ++ names) = some (.file id) := by
  cases place with
  | removed between above =>
      simp [filesBelow]
  | live top =>
      rw [filesBelow, List.mem_filterMap]
      constructor
      · rintro ⟨⟨location, node⟩, member, shown⟩
        rcases mem_below_iff.mp member with ⟨stands, ⟨rest, rfl⟩, proper⟩
        split at shown
        · next other isFile =>
          cases shown
          simp only at isFile
          subst isFile
          rw [List.drop_left]
          exact ⟨by simpa using proper, top, rfl, stands⟩
        · cases shown
      · rintro ⟨more, other, same, stands⟩
        cases same
        refine ⟨(top ++ names, .file id), mem_below_iff.mpr ⟨stands, ?_, ?_⟩, ?_⟩
        · exact List.prefix_append ..
        · simpa using more
        · simp

/-- The files come in the order of their names. -/
theorem ordered_filesBelow (system : FileSystem) (place : Place) :
    (system.filesBelow place).Pairwise fun one other => compare one.1 other.1 = .lt := by
  cases place with
  | removed between above =>
      exact List.Pairwise.nil
  | live top =>
      rw [filesBelow, List.pairwise_filterMap]
      refine List.Pairwise.imp_of_mem ?_ (ordered_below system top)
      rintro ⟨one, node⟩ ⟨other, otherNode⟩ member otherMember before
      rcases mem_below_iff.mp member with ⟨-, ⟨names, rfl⟩, -⟩
      rcases mem_below_iff.mp otherMember with ⟨-, ⟨otherNames, rfl⟩, -⟩
      intro found shown otherFound otherShown
      have inner : compare names otherNames = .lt := by
        rwa [compare_append] at before
      simp only at shown otherShown
      split at shown
      · split at otherShown
        · cases shown
          cases otherShown
          simpa using inner
        · cases otherShown
      · cases shown

theorem nodup_filesBelow (system : FileSystem) (place : Place) :
    ((system.filesBelow place).map Prod.fst).Nodup := by
  rw [List.Nodup, List.pairwise_map]
  apply (ordered_filesBelow system place).imp
  intro one other before same
  rw [same] at before
  simp at before

theorem filesBelow_congr {first second : FileSystem} {place : Place}
    (same : ∀ top inner, place = .live top → top <+: inner →
      second.node? inner = first.node? inner) :
    second.filesBelow place = first.filesBelow place := by
  cases place with
  | removed between above =>
      rfl
  | live top =>
      have below : second.below top = first.below top := by
        apply below_eq (ordered_below first top)
        rintro ⟨inner, node⟩
        rw [mem_below_iff, mem_below_iff]
        constructor
        · rintro ⟨stands, inside, proper⟩
          exact ⟨by rwa [← same top inner rfl inside], inside, proper⟩
        · rintro ⟨stands, inside, proper⟩
          exact ⟨by rwa [same top inner rfl inside], inside, proper⟩
      rw [filesBelow, filesBelow, below]

/-- Whether a walk from a root meets no path that is too long for the system. -/
def WithinLimits (system : FileSystem) (root : Path) (place : Place) : Prop :=
  ∀ top names, place = .live top → system.node? (top ++ names) ≠ none →
    (pathBelow root names).bytes.length < pathLimit

/-- A walk at a path that means a directory finds the files in it. -/
theorem walk_eq_files {root : Path} {place : Place} (found : system.locate root = .ok place)
    (stands : system.nodeAt? place = some .directory) (short : system.WithinLimits root place) :
    system.walk root =
      .ok ((system.filesBelow place).map fun pair => .file (pathBelow root pair.1) pair.2) := by
  rw [walk_of_locate found stands]
  cases place with
  | removed between above =>
      rfl
  | live top =>
      simp only [filesBelow, foundIn, List.map_filterMap]
      refine congrArg Except.ok (List.filterMap_congr ?_)
      rintro ⟨inner, node⟩ member
      rcases mem_below_iff.mp member with ⟨found, ⟨names, rfl⟩, -⟩
      cases node with
      | directory =>
          have fits : ¬ pathLimit ≤ (pathBelow root names).bytes.length :=
            Nat.not_le_of_lt (short top names rfl (by simp [found]))
          simp [fits]
      | file _ | link _ | special _ =>
          rfl

end BundlePacker.FileSystem
