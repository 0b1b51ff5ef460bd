import BundlePacker.FileSystem.Basic

/-!
# What differs between two file systems

Two states of one file system are compared below a location by what can be seen there.  A difference
lists what is gone and what is new or looks different.  It is empty exactly when both states look
the same at every location below.
-/

namespace BundlePacker.FileSystem

/-- How what can be seen in one file system differs from another one. -/
structure Difference where
  /-- The locations where nothing stands any more, ascending. -/
  gone : List Location
  /-- What is new or looks different, by ascending location. -/
  present : List (Location × View)

/-- What can be seen strictly below a location, by ascending location. -/
def viewsBelow (system : FileSystem) (top : Location) : List (Location × View) :=
  (system.below top).filterMap fun pair => (system.view? pair.1).map fun view => (pair.1, view)

/-- What has changed strictly below a location from one file system to another. -/
def difference (before after : FileSystem) (top : Location) : Difference where
  gone := ((before.viewsBelow top).filter fun pair => (after.view? pair.1).isNone).map Prod.fst
  present := (after.viewsBelow top).filter fun pair => before.view? pair.1 ≠ some pair.2

theorem mem_below_iff {system : FileSystem} {top location : Location} {node : Node} :
    (location, node) ∈ system.below top ↔
      system.node? location = some node ∧ top <+: location ∧ location ≠ top := by
  simp only [below, List.mem_filter, decide_eq_true_eq,
    Std.ExtTreeMap.mem_toList_iff_getElem?_eq_some]
  constructor
  · rintro ⟨stored, inside, proper⟩
    have below_root : location ≠ [] := by
      rintro rfl
      exact proper (List.prefix_nil.mp inside).symm
    exact ⟨by simp [node?, below_root, stored], inside, proper⟩
  · rintro ⟨stands, inside, proper⟩
    have below_root : location ≠ [] := by
      rintro rfl
      exact proper (List.prefix_nil.mp inside).symm
    exact ⟨by simpa [node?, below_root] using stands, inside, proper⟩

theorem mem_viewsBelow_iff {system : FileSystem} {top location : Location} {view : View} :
    (location, view) ∈ system.viewsBelow top ↔
      system.view? location = some view ∧ top <+: location ∧ location ≠ top := by
  simp only [viewsBelow, List.mem_filterMap, Option.map_eq_some_iff, Prod.mk.injEq]
  constructor
  · rintro ⟨⟨here, node⟩, member, seen, looks, rfl, rfl⟩
    exact ⟨looks, (mem_below_iff.mp member).2⟩
  · rintro ⟨looks, inside⟩
    cases stands : system.node? location with
    | none => simp [view?, stands] at looks
    | some node =>
      exact ⟨(location, node), mem_below_iff.mpr ⟨stands, inside⟩, view, looks, rfl, rfl⟩

theorem mem_gone_iff {before after : FileSystem} {top location : Location} :
    location ∈ (before.difference after top).gone ↔
      before.view? location ≠ none ∧ after.view? location = none ∧
        top <+: location ∧ location ≠ top := by
  simp only [difference, List.mem_map, List.mem_filter, Option.isNone_iff_eq_none]
  constructor
  · rintro ⟨⟨here, view⟩, ⟨member, absent⟩, rfl⟩
    obtain ⟨looks, inside⟩ := mem_viewsBelow_iff.mp member
    exact ⟨by simp [looks], absent, inside⟩
  · rintro ⟨looked, absent, inside⟩
    obtain ⟨view, looks⟩ := Option.ne_none_iff_exists'.mp looked
    exact ⟨(location, view), ⟨mem_viewsBelow_iff.mpr ⟨looks, inside⟩, absent⟩, rfl⟩

theorem mem_present_iff {before after : FileSystem} {top location : Location} {view : View} :
    (location, view) ∈ (before.difference after top).present ↔
      after.view? location = some view ∧ before.view? location ≠ some view ∧
        top <+: location ∧ location ≠ top := by
  simp only [difference, List.mem_filter, decide_eq_true_eq, mem_viewsBelow_iff]
  constructor
  · rintro ⟨⟨looks, inside⟩, differs⟩
    exact ⟨looks, differs, inside⟩
  · rintro ⟨looks, differs, inside⟩
    exact ⟨⟨looks, inside⟩, differs⟩

/-- No difference is found exactly where both file systems look the same. -/
theorem difference_eq_nil_iff {before after : FileSystem} {top : Location} :
    before.difference after top = ⟨[], []⟩ ↔
      ∀ location, top <+: location → location ≠ top →
        before.view? location = after.view? location := by
  constructor
  · intro nothing location inside proper
    cases now : after.view? location with
    | none =>
      refine Classical.byContradiction fun looked => ?_
      have member : location ∈ (before.difference after top).gone :=
        mem_gone_iff.mpr ⟨looked, now, inside, proper⟩
      simp [nothing] at member
    | some view =>
      refine Classical.byContradiction fun differs => ?_
      have member : (location, view) ∈ (before.difference after top).present :=
        mem_present_iff.mpr ⟨now, differs, inside, proper⟩
      simp [nothing] at member
  · intro same
    have none_gone : (before.difference after top).gone = [] := by
      rw [List.eq_nil_iff_forall_not_mem]
      intro location member
      obtain ⟨looked, absent, inside, proper⟩ := mem_gone_iff.mp member
      exact looked (same location inside proper ▸ absent)
    have none_present : (before.difference after top).present = [] := by
      rw [List.eq_nil_iff_forall_not_mem]
      rintro ⟨location, view⟩ member
      obtain ⟨looks, differs, inside, proper⟩ := mem_present_iff.mp member
      exact differs (same location inside proper ▸ looks)
    cases h : before.difference after top
    simp_all

end BundlePacker.FileSystem
