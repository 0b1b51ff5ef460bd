import BundlePacker.Proofs.FileSystem.Reach

/-!
# Resolutions that cross an entry

A resolution that succeeds crosses each entry that it looks up: from the directory of the entry its
last part is a resolution in its own right, and that one succeeds as well.  So something stands at
every entry that has been looked up, except where the resolution ends at a vacant name.

The main statement is about two paths that meet at an entry.  If opening the one for writing leads
from there to something that is no directory, then a path that crosses the entry ends at the very
same place, because nothing can come after what is no directory.
-/

namespace BundlePacker.FileSystem

variable {system : FileSystem} {purpose : Purpose} {links : Nat} {here place : Place} {slash : Bool}
  {directory entry : Location} {name : Name} {names rest : List Name} {spot : Spot} {path : Path}

/-! ## Links that may still be followed -/

/-- How a resolution goes on at a link when some number of links may still be followed. -/
def following (system : FileSystem) (purpose : Purpose) : Nat → Following
  | 0 => fun _ _ _ _ => .error .tooManyLinks
  | links + 1 => fun here target rest slash =>
    resolveFrom system purpose links
      (.live (if target.isAbsolute then [] else here))
      (target.names ++ rest)
      (if rest = [] then slash || target.endsInSlash else slash)

theorem resolveFrom_eq_ok_iff :
    resolveFrom system purpose links here names slash = .ok spot ↔
      Descends system purpose (following system purpose links) slash here names spot := by
  rw [← descend_eq_ok_iff]
  cases links <;> rfl

/-! ## Crossing an entry -/

/-- Whether the last part of a resolution is one from the directory of an entry. -/
def Crosses (system : FileSystem) (purpose : Purpose) (entry : Location) (spot : Spot) : Prop :=
  ∃ links directory name rest slash, entry = directory ++ [name] ∧
    Enters purpose slash name rest ∧
    resolveFrom system purpose links (.live directory) (name :: rest) slash = .ok spot

theorem Descends.crosses {tracing : Tracing}
    (follows : ∀ directory target rest slash,
      following system purpose links directory target rest slash = .ok spot →
      entry ∈ tracing directory target rest slash → Crosses system purpose entry spot)
    (descends : Descends system purpose (following system purpose links) slash here names spot)
    (member : entry ∈ lookups system purpose tracing here names slash) :
    Crosses system purpose entry spot := by
  induction descends with
  | done =>
      cases member
  | self later hypothesis =>
      exact hypothesis follows (by simpa only [lookups, if_true] using member)
  | parent later hypothesis =>
      exact hypothesis follows
        (by simpa only [lookups, if_neg parentName_ne_selfName, if_true] using member)
  | missing enters vacant =>
      have own : entry = _ := eq_of_mem_lookups (by simp [vacant]) member
      exact ⟨links, _, _, _, slash, own, enters,
        resolveFrom_eq_ok_iff.mpr (.missing enters vacant)⟩
  | inside enters stands later hypothesis =>
      rw [lookups_inside enters stands] at member
      rcases List.mem_cons.mp member with own | further
      · exact ⟨links, _, _, _, slash, own, enters,
          resolveFrom_eq_ok_iff.mpr (.inside enters stands later)⟩
      · exact hypothesis follows further
  | @kept directory name target enters stands isEntry =>
      rw [lookups, if_neg enters.neSelf, if_neg enters.neParent, if_neg enters.goesOn] at member
      simp only [stands, isEntry, and_self, if_true, List.mem_singleton] at member
      exact ⟨links, _, _, _, slash, member, enters,
        resolveFrom_eq_ok_iff.mpr (.kept enters stands isEntry)⟩
  | followed enters stands leads later =>
      rw [lookups_followed enters stands leads] at member
      rcases List.mem_cons.mp member with own | further
      · exact ⟨links, _, _, _, slash, own, enters,
          resolveFrom_eq_ok_iff.mpr (.followed enters stands leads later)⟩
      · exact follows _ _ _ _ later further
  | @leaf directory name node enters stands noDirectory noLink bare =>
      have noLinkThere : ∀ target, system.node? (directory ++ [name]) ≠ some (.link target) := by
        rintro target other
        rw [stands] at other
        exact noLink target (Option.some.inj other)
      exact ⟨links, _, _, _, slash, eq_of_mem_lookups noLinkThere member, enters,
        resolveFrom_eq_ok_iff.mpr (.leaf enters stands noDirectory noLink bare)⟩

theorem crosses_of_mem_lookupsFrom
    (ends : resolveFrom system purpose links here names slash = .ok spot)
    (member : entry ∈ lookupsFrom system purpose links here names slash) :
    Crosses system purpose entry spot := by
  induction links generalizing here names slash with
  | zero =>
      refine Descends.crosses ?_ (resolveFrom_eq_ok_iff.mp ends) member
      intro _ _ _ _ impossible
      cases impossible
  | succ links hypothesis =>
      refine Descends.crosses ?_ (resolveFrom_eq_ok_iff.mp ends) member
      intro directory target rest slash follows further
      exact hypothesis follows further

/-- A resolution that succeeds crosses every entry that it looks up. -/
theorem crosses_of_mem_lookedUp (ends : system.resolve purpose path = .ok spot)
    (member : entry ∈ system.lookedUp purpose path) : Crosses system purpose entry spot := by
  rcases resolve_eq_ok_iff.mp ends with ⟨-, here, begins, reached⟩
  rw [lookedUp, begins] at member
  exact crosses_of_mem_lookupsFrom reached member

/-- Something stands at every entry that has been looked up on the way to a place. -/
theorem Crosses.stands (crosses : Crosses system purpose entry (.occupied place)) :
    ∃ node, system.node? entry = some node := by
  rcases crosses with ⟨links, directory, name, rest, slash, rfl, enters, ends⟩
  cases resolveFrom_eq_ok_iff.mp ends with
  | self later =>
      exact absurd rfl enters.neSelf
  | parent later =>
      exact absurd rfl enters.neParent
  | inside _ stands _ | kept _ stands _ | followed _ stands _ _ | leaf _ stands _ _ _ =>
      exact ⟨_, stands⟩

/-- A resolution that crosses a name of a file ends at it. -/
theorem Crosses.eq_of_file {id : Nat} (crosses : Crosses system .target entry (.occupied place))
    (isFile : system.node? entry = some (.file id)) : place = .live entry := by
  rcases crosses with ⟨links, directory, name, rest, slash, rfl, enters, ends⟩
  cases resolveFrom_eq_ok_iff.mp ends with
  | self later =>
      exact absurd rfl enters.neSelf
  | parent later =>
      exact absurd rfl enters.neParent
  | inside _ stands _ | followed _ stands _ _ =>
      rw [isFile] at stands
      cases stands
  | kept _ _ isEntry =>
      cases isEntry
  | leaf =>
      rfl

/-- A path that means something crosses entries only at which something stands. -/
theorem stands_of_mem_lookedUp (found : system.locate path = .ok place)
    (member : entry ∈ system.lookedUp .target path) : ∃ node, system.node? entry = some node :=
  (crosses_of_mem_lookedUp (locate_eq_ok_iff.mp found) member).stands

/-! ## Two paths that meet -/

/-- What can be looked up to make a file can be looked up with further names after it. -/
theorem Enters.further {slashAfter : Bool} {after : List Name}
    (enters : Enters purpose slash name rest) : Enters .target slashAfter name after :=
  ⟨enters.neSelf, enters.neParent, fun ends => Purpose.noConfusion ends.2.2, enters.short⟩

/-- Whether resolutions that follow names, and perhaps more of them, can end at a spot only. -/
def EndsWith (system : FileSystem) (here : Place) (names : List Name) (spot : Spot) : Prop :=
  ∀ links more slash place,
    resolveFrom system .target links here (names ++ more) slash = .ok (.occupied place) →
    spot = .occupied place

theorem Descends.endsWith (wellFormed : system.WellFormed)
    (follows : ∀ directory target rest slash, system.node? directory = some .directory →
      following system .creation links directory target rest slash = .ok spot →
      EndsWith system (.live (if target.isAbsolute then [] else directory))
        (target.names ++ rest) spot)
    (leaf : system.nodeAt? spot.place ≠ some .directory)
    (above : system.node? here.anchor = some .directory)
    (descends : Descends system .creation (following system .creation links) slash here names
      spot) : EndsWith system here names spot := by
  induction descends with
  | done =>
      exact absurd (nodeAt?_of_anchor above) leaf
  | self later hypothesis =>
      intro further more slashAfter place found
      rw [List.cons_append, resolveFrom_self] at found
      exact hypothesis follows leaf above _ _ _ _ found
  | parent later hypothesis =>
      intro further more slashAfter place found
      rw [List.cons_append, resolveFrom_parent] at found
      exact hypothesis follows leaf (wellFormed.anchor_parent above) _ _ _ _ found
  | missing enters vacant =>
      intro further more slashAfter place found
      have crosses : Crosses system .target _ (.occupied place) :=
        ⟨further, _, _, _, slashAfter, rfl, enters.further, found⟩
      rcases crosses.stands with ⟨node, stands⟩
      rw [vacant] at stands
      cases stands
  | inside enters stands later hypothesis =>
      intro further more slashAfter place found
      rw [List.cons_append, resolveFrom_inside enters.further stands] at found
      exact hypothesis follows leaf stands _ _ _ _ found
  | kept enters stands isEntry =>
      cases isEntry
  | followed enters stands leads later =>
      intro further more slashAfter place found
      have leadsToo : ∀ after : List Name, ¬ (after = [] ∧ Purpose.target = .entry) := by
        simp
      cases further with
      | zero =>
          rw [List.cons_append, resolveFrom, descend_followed enters.further stands
            (leadsToo _)] at found
          cases found
      | succ further =>
          rw [List.cons_append, resolveFrom_followed enters.further stands (leadsToo _),
            ← List.append_assoc] at found
          exact follows _ _ _ _ above later _ _ _ _ found
  | leaf enters stands noDirectory noLink bare =>
      intro further more slashAfter place found
      cases resolveFrom_eq_ok_iff.mp found with
      | self later =>
          exact absurd rfl enters.neSelf
      | parent later =>
          exact absurd rfl enters.neParent
      | inside _ other _ =>
          rw [stands] at other
          exact absurd (Option.some.inj other) noDirectory
      | kept _ _ isEntry =>
          cases isEntry
      | followed _ other _ _ =>
          rw [stands] at other
          exact absurd (Option.some.inj other) (noLink _)
      | leaf =>
          rfl

/-- Nothing can come after names that lead to something that is no directory. -/
theorem endsWith_of_resolveFrom (wellFormed : system.WellFormed)
    (leaf : system.nodeAt? spot.place ≠ some .directory)
    (above : system.node? here.anchor = some .directory)
    (ends : resolveFrom system .creation links here names slash = .ok spot) :
    EndsWith system here names spot := by
  induction links generalizing here names slash with
  | zero =>
      refine Descends.endsWith wellFormed ?_ leaf above (resolveFrom_eq_ok_iff.mp ends)
      intro _ _ _ _ _ impossible
      cases impossible
  | succ links hypothesis =>
      refine Descends.endsWith wellFormed ?_ leaf above (resolveFrom_eq_ok_iff.mp ends)
      intro directory target rest slash stands follows
      refine hypothesis ?_ follows
      simp only [Place.anchor]
      split
      · simp
      · exact stands

/-- A path that crosses the name at which another one can be opened ends where that one does. -/
theorem eq_of_mem_lookedUp (wellFormed : system.WellFormed) {opened : Path}
    (stands : system.node? directory = some .directory)
    (reaches : system.Reaches opened directory name)
    (opens : system.resolve .creation opened = .ok spot)
    (leaf : system.nodeAt? spot.place ≠ some .directory)
    (found : system.resolve .target path = .ok (.occupied place))
    (member : directory ++ [name] ∈ system.lookedUp .target path) : spot = .occupied place := by
  rcases crosses_of_mem_lookedUp found member with
    ⟨links, other, last, rest, slash, same, enters, crosses⟩
  rcases List.append_inj' same rfl with ⟨rfl, sameLast⟩
  rcases List.cons.inj sameLast with ⟨rfl, -⟩
  rcases reaches.resolves with ⟨remaining, resolved⟩
  rw [resolved] at opens
  cases ends : resolveFrom system .creation remaining (.live directory) [name] false with
  | error refusal =>
      rw [ends] at opens
      cases opens
  | ok first =>
      rw [ends] at opens
      cases opens
      have above : system.node? (Place.live directory).anchor = some .directory := stands
      exact endsWith_of_resolveFrom wellFormed leaf above ends links rest slash place crosses

end BundlePacker.FileSystem
