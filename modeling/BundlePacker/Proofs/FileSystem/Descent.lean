import BundlePacker.FileSystem.WellFormed

/-!
# Descents

A descent is a resolution that succeeds, told step by step: each step takes the next name away and
either goes on from another place, hands a link on, or ends.  What follows from the success of a
resolution is proved along its descent.  The main statement says that a resolution ends at a spot
exactly when there is a descent to it.
-/

namespace BundlePacker.FileSystem

/-- Whether a name can be looked up in a directory, with the names after it still to come. -/
structure Enters (purpose : Purpose) (slash : Bool) (name : Name) (rest : List Name) : Prop where
  neSelf : name ≠ selfName
  neParent : name ≠ parentName
  goesOn : ¬ (rest = [] ∧ slash ∧ purpose = .creation)
  short : ¬ nameLimit < name.length

/-- How following names from a place ends at a spot. -/
inductive Descends (system : FileSystem) (purpose : Purpose) (following : Following)
    (slash : Bool) : Place → List Name → Spot → Prop
  /-- No name is left. -/
  | done {here : Place} :
      Descends system purpose following slash here [] (.occupied here)
  /-- The name is that of the directory itself. -/
  | self {here : Place} {rest : List Name} {spot : Spot}
      (later : Descends system purpose following slash here rest spot) :
      Descends system purpose following slash here (selfName :: rest) spot
  /-- The name is that of the directory above. -/
  | parent {here : Place} {rest : List Name} {spot : Spot}
      (later : Descends system purpose following slash here.parent rest spot) :
      Descends system purpose following slash here (parentName :: rest) spot
  /-- The last name is missing. -/
  | missing {directory : Location} {name : Name}
      (enters : Enters purpose slash name [])
      (vacant : system.node? (directory ++ [name]) = none) :
      Descends system purpose following slash (.live directory) [name] (.vacant directory name)
  /-- The name is that of a directory. -/
  | inside {directory : Location} {name : Name} {rest : List Name} {spot : Spot}
      (enters : Enters purpose slash name rest)
      (stands : system.node? (directory ++ [name]) = some .directory)
      (later :
        Descends system purpose following slash (.live (directory ++ [name])) rest spot) :
      Descends system purpose following slash (.live directory) (name :: rest) spot
  /-- The last name is that of a link, and the link itself is meant. -/
  | kept {directory : Location} {name : Name} {target : Path}
      (enters : Enters purpose slash name [])
      (stands : system.node? (directory ++ [name]) = some (.link target))
      (entry : purpose = .entry) :
      Descends system purpose following slash (.live directory) [name]
        (.occupied (.live (directory ++ [name])))
  /-- The name is that of a link, and the link is followed. -/
  | followed {directory : Location} {name : Name} {rest : List Name} {target : Path} {spot : Spot}
      (enters : Enters purpose slash name rest)
      (stands : system.node? (directory ++ [name]) = some (.link target))
      (leads : ¬ (rest = [] ∧ purpose = .entry))
      (later : following directory target rest slash = .ok spot) :
      Descends system purpose following slash (.live directory) (name :: rest) spot
  /-- The last name is that of a node that holds nothing. -/
  | leaf {directory : Location} {name : Name} {node : Node}
      (enters : Enters purpose slash name [])
      (stands : system.node? (directory ++ [name]) = some node)
      (noDirectory : node ≠ .directory) (noLink : ∀ target, node ≠ .link target)
      (bare : purpose = .entry ∨ slash = false) :
      Descends system purpose following slash (.live directory) [name]
        (.occupied (.live (directory ++ [name])))

variable {system : FileSystem} {purpose : Purpose} {following : Following} {slash : Bool}
  {here : Place} {directory : Location} {name : Name} {rest names : List Name} {spot : Spot}

theorem parentName_ne_selfName : parentName ≠ selfName := by
  decide

/-- What can be looked up for a new file can be looked up for every purpose. -/
theorem Enters.of_enters {other : Purpose} (enters : Enters purpose slash name rest)
    (noCreation : other ≠ .creation) : Enters other slash name rest :=
  ⟨enters.neSelf, enters.neParent, fun ends => noCreation ends.2.2, enters.short⟩

theorem IsName.enters (isName : IsName name) : Enters purpose false name rest :=
  ⟨isName.ne_self, isName.ne_parent, by simp, Nat.not_lt_of_le isName.short⟩

/-! ## One step of a resolution -/

theorem descend_self :
    descend system purpose following here (selfName :: rest) slash =
      descend system purpose following here rest slash := by
  simp only [descend, if_true]

theorem descend_parent :
    descend system purpose following here (parentName :: rest) slash =
      descend system purpose following here.parent rest slash := by
  simp only [descend, if_neg parentName_ne_selfName, if_true]

theorem descend_inside (enters : Enters purpose slash name rest)
    (stands : system.node? (directory ++ [name]) = some .directory) :
    descend system purpose following (.live directory) (name :: rest) slash =
      descend system purpose following (.live (directory ++ [name])) rest slash := by
  rw [descend, if_neg enters.neSelf, if_neg enters.neParent, if_neg enters.goesOn]
  simp only [if_neg enters.short, stands]

theorem descend_followed {target : Path} (enters : Enters purpose slash name rest)
    (stands : system.node? (directory ++ [name]) = some (.link target))
    (leads : ¬ (rest = [] ∧ purpose = .entry)) :
    descend system purpose following (.live directory) (name :: rest) slash =
      following directory target rest slash := by
  rw [descend, if_neg enters.neSelf, if_neg enters.neParent, if_neg enters.goesOn]
  simp only [if_neg enters.short, stands, if_neg leads]

/-! ## Resolutions and descents -/

theorem descends_of_descend
    (ends : descend system purpose following here names slash = .ok spot) :
    Descends system purpose following slash here names spot := by
  induction names generalizing here with
  | nil =>
      cases ends
      exact .done
  | cons name rest hypothesis =>
      simp only [descend] at ends
      split at ends
      · next isSelf =>
        subst isSelf
        exact .self (hypothesis ends)
      next neSelf =>
      split at ends
      · next isParent =>
        subst isParent
        exact .parent (hypothesis ends)
      next neParent =>
      split at ends
      · cases ends
      next goesOn =>
      cases here with
      | removed between above =>
          cases ends
      | live directory =>
          simp only at ends
          split at ends
          · cases ends
          next short =>
          have enters : Enters purpose slash name rest := ⟨neSelf, neParent, goesOn, short⟩
          split at ends
          · next vacant =>
            split at ends
            · next last =>
              cases ends
              subst last
              exact .missing enters vacant
            · cases ends
          · next stands =>
            exact .inside enters stands (hypothesis ends)
          · next target stands =>
            split at ends
            · next last =>
              rcases last with ⟨rfl, entry⟩
              cases ends
              exact .kept enters stands entry
            · next leads =>
              exact .followed enters stands leads ends
          · next node noDirectory noLink stands =>
            split at ends
            · next last =>
              rcases last with ⟨rfl, bare⟩
              cases ends
              have plain : purpose = .entry ∨ slash = false := by simpa using bare
              exact .leaf enters stands noDirectory noLink plain
            · cases ends

theorem descend_of_descends
    (descends : Descends system purpose following slash here names spot) :
    descend system purpose following here names slash = .ok spot := by
  induction descends with
  | done =>
      rfl
  | self later hypothesis =>
      rwa [descend_self]
  | parent later hypothesis =>
      rwa [descend_parent]
  | missing enters vacant =>
      rw [descend, if_neg enters.neSelf, if_neg enters.neParent, if_neg enters.goesOn]
      simp only [if_neg enters.short, vacant, if_true]
  | inside enters stands later hypothesis =>
      rwa [descend_inside enters stands]
  | kept enters stands entry =>
      rw [descend, if_neg enters.neSelf, if_neg enters.neParent, if_neg enters.goesOn]
      simp only [if_neg enters.short, stands, entry, and_self, if_true]
  | followed enters stands leads later =>
      rwa [descend_followed enters stands leads]
  | @leaf directory name node enters stands noDirectory noLink bare =>
      rw [descend, if_neg enters.neSelf, if_neg enters.neParent, if_neg enters.goesOn]
      simp only [if_neg enters.short, stands]
      cases node with
      | directory =>
          exact absurd rfl noDirectory
      | link target =>
          exact absurd rfl (noLink target)
      | file _ | special _ =>
          rcases bare with rfl | rfl <;> simp

/-- A resolution ends at a spot exactly when there is a descent to it. -/
theorem descend_eq_ok_iff :
    descend system purpose following here names slash = .ok spot ↔
      Descends system purpose following slash here names spot :=
  ⟨descends_of_descend, descend_of_descends⟩

end BundlePacker.FileSystem
