import BundlePacker.Proofs.Path.Join

/-!
# Components written out

Components can be written out again, with a slash between any two.  What is read back from them is
the same components, although dots and repeated slashes of the path that they came from are gone.
The root and a leading dot stand for themselves in the first place only, so the first component is
looked at on its own.  The main statement is that the components that a path has beyond those of a
root, written out and joined to the root, give a path with the components of the first.
-/

namespace BundlePacker.Path

/-- The path that some components are written to. -/
def spelled (components : List Component) : Path :=
  ⟨joinSegments (components.map Component.bytes)⟩

namespace Component

theorem bytes_of_ofSegment? {segment : Bytes} {component : Component}
    (read : ofSegment? segment = some component) : component.bytes = segment := by
  rw [ofSegment?] at read
  split at read
  · cases read
  split at read
  · next parent =>
    cases read
    exact parent.symm
  · cases read
    rfl

/-- A component that is read back from its bytes behind the first segment of a path. -/
structure IsInner (component : Component) : Prop where
  noSlash : slash ∉ component.bytes
  read : ofSegment? component.bytes = some component

theorem IsInner.of_ofSegment? {segment : Bytes} {component : Component} (clean : slash ∉ segment)
    (read : ofSegment? segment = some component) : IsInner component := by
  have written : component.bytes = segment := bytes_of_ofSegment? read
  constructor
  · rw [written]
    exact clean
  · rw [written]
    exact read

theorem IsInner.ne_nil {component : Component} (inner : IsInner component) :
    component.bytes ≠ [] := by
  intro empty
  have read := inner.read
  rw [empty] at read
  cases read

theorem IsInner.ne_dot {component : Component} (inner : IsInner component) :
    component.bytes ≠ [dot] := by
  intro dotted
  have read := inner.read
  rw [dotted] at read
  cases read

theorem IsInner.head {component : Component} (inner : IsInner component) :
    ∃ byte rest, component.bytes = byte :: rest ∧ byte ≠ slash := by
  cases shape : component.bytes with
  | nil =>
      exact absurd shape inner.ne_nil
  | cons byte rest =>
      refine ⟨byte, rest, rfl, ?_⟩
      rintro rfl
      have member : slash ∈ component.bytes := by simp [shape]
      exact inner.noSlash member

end Component

open Component

/-! ## Components behind the first one -/

theorem segments_spelled {components : List Component} (nonempty : components ≠ [])
    (clean : ∀ component ∈ components, slash ∉ component.bytes) :
    segments (spelled components).bytes = components.map Component.bytes := by
  apply segments_joinSegments
  · simpa using nonempty
  · intro piece member
    rcases List.mem_map.mp member with ⟨component, among, rfl⟩
    exact clean component among

theorem filterMap_map_bytes {components : List Component}
    (inner : ∀ component ∈ components, IsInner component) :
    (components.map Component.bytes).filterMap ofSegment? = components := by
  induction components with
  | nil =>
      rfl
  | cons component others hypothesis =>
      have read := (inner component (List.mem_cons_self ..)).read
      have later := hypothesis fun other member => inner other (List.mem_cons_of_mem _ member)
      rw [List.map_cons, List.filterMap_cons_some read, later]

theorem filterMap_segments_spelled {components : List Component}
    (inner : ∀ component ∈ components, IsInner component) :
    (segments (spelled components).bytes).filterMap ofSegment? = components := by
  by_cases empty : components = []
  · subst empty
    rfl
  · rw [segments_spelled empty fun component member => (inner component member).noSlash,
      filterMap_map_bytes inner]

theorem isAbsolute_spelled {components : List Component}
    (inner : ∀ component ∈ components, IsInner component) :
    (spelled components).isAbsolute = false := by
  cases components with
  | nil =>
      rfl
  | cons component others =>
      rcases (inner component (List.mem_cons_self ..)).head with ⟨byte, rest, shape, differs⟩
      cases others <;> simp [spelled, joinSegments, isAbsolute, shape, differs]

/-! ## The first component -/

/-- What the first component of a path can be. -/
inductive Component.IsFirst : Component → Prop where
  | root : IsFirst .root
  | current : IsFirst .current
  | inner {component : Component} (proper : IsInner component) : IsFirst component

theorem leading_of_segment {segment : Bytes} (clean : slash ∉ segment) :
    ∃ component, leading segment = [component] ∧ IsFirst component := by
  by_cases empty : segment = []
  · exact ⟨.root, by simp [leading, empty], .root⟩
  · by_cases dotted : segment = [dot]
    · exact ⟨.current, by simp [leading, ofFirstSegment?, dotted], .current⟩
    · have found : (ofSegment? segment).isSome := by
        rw [ofSegment?, if_neg (by simp [empty, dotted])]
        split <;> rfl
      rcases Option.isSome_iff_exists.mp found with ⟨component, read⟩
      refine ⟨component, ?_, .inner (IsInner.of_ofSegment? clean read)⟩
      simp [leading, ofFirstSegment?, empty, dotted, read]

/-- A path that is not empty has a first component, and inner ones behind it. -/
theorem exists_components {path : Path} (nonempty : path.bytes ≠ []) :
    ∃ first others, path.components = first :: others ∧ IsFirst first ∧
      ∀ component ∈ others, IsInner component := by
  cases pieces : segments path.bytes with
  | nil =>
      exact absurd pieces (segments_ne_nil path.bytes)
  | cons segment rest =>
      have clean : ∀ piece ∈ segment :: rest, slash ∉ piece := by
        rw [← pieces]
        exact fun piece => slash_not_mem_of_mem_segments
      rcases leading_of_segment (clean segment (List.mem_cons_self ..)) with ⟨first, leads, kind⟩
      refine ⟨first, rest.filterMap ofSegment?, ?_, kind, ?_⟩
      · rw [components_eq nonempty pieces, leads, List.singleton_append]
      · intro component member
        rcases List.mem_filterMap.mp member with ⟨piece, among, read⟩
        exact IsInner.of_ofSegment? (clean piece (List.mem_cons_of_mem _ among)) read

@[simp]
theorem components_nil : components ⟨[]⟩ = [] :=
  rfl

theorem components_eq_nil_iff {path : Path} : path.components = [] ↔ path.bytes = [] := by
  constructor
  · intro bare
    by_cases empty : path.bytes = []
    · exact empty
    · rcases exists_components empty with ⟨first, others, shape, -, -⟩
      rw [bare] at shape
      cases shape
  · intro empty
    have same : path = ⟨[]⟩ := ext empty
    rw [same, components_nil]

/-- Every component but the root is written as one segment, and stands first when it is. -/
theorem components_spelled_of_segment {first : Component} {others : List Component}
    (clean : slash ∉ first.bytes) (leads : leading first.bytes = [first])
    (proper : first.bytes ≠ []) (inner : ∀ component ∈ others, IsInner component) :
    (spelled (first :: others)).components = first :: others := by
  have pieces : segments (spelled (first :: others)).bytes =
      first.bytes :: others.map Component.bytes := by
    apply segments_spelled (List.cons_ne_nil first others)
    intro component member
    rcases List.mem_cons.mp member with rfl | later
    · exact clean
    · exact (inner component later).noSlash
  have nonempty : (spelled (first :: others)).bytes ≠ [] := by
    cases others <;> simp [spelled, joinSegments, proper]
  rw [components_eq nonempty pieces, leads, filterMap_map_bytes inner, List.singleton_append]

theorem components_spelled_root {others : List Component}
    (inner : ∀ component ∈ others, IsInner component) :
    (spelled (.root :: others)).components = .root :: others := by
  cases others with
  | nil =>
      rfl
  | cons second later =>
      have written : spelled (.root :: second :: later) =
          ⟨slash :: slash :: (spelled (second :: later)).bytes⟩ := rfl
      have pieces : segments (slash :: (spelled (second :: later)).bytes) =
          [] :: segments (spelled (second :: later)).bytes := by
        rw [segments, if_pos rfl]
      have read := filterMap_segments_spelled inner
      rw [written, components]
      simp [pieces, ofSegment?, read]

/-- What is read back from the components of a path, written out, is the same components. -/
theorem components_spelled (path : Path) :
    (spelled path.components).components = path.components := by
  by_cases empty : path.bytes = []
  · rw [components_eq_nil_iff.mpr empty]
    rfl
  · rcases exists_components empty with ⟨first, others, shape, kind, inner⟩
    rw [shape]
    cases kind with
    | root =>
        exact components_spelled_root inner
    | current =>
        exact components_spelled_of_segment (by decide) rfl (by decide) inner
    | inner proper =>
        apply components_spelled_of_segment proper.noSlash ?_ proper.ne_nil inner
        simp [leading, ofFirstSegment?, proper.ne_nil, proper.ne_dot, proper.read]

/-! ## Components beyond those of a root -/

theorem isInner_of_beyond {root path : Path} (nonempty : root.bytes ≠ []) {rest : List Component}
    (shape : path.components = root.components ++ rest) :
    ∀ component ∈ rest, IsInner component := by
  rcases exists_components nonempty with ⟨first, others, begins, -, -⟩
  have proper : path.bytes ≠ [] := by
    intro empty
    rw [components_eq_nil_iff.mpr empty, begins] at shape
    cases shape
  rcases exists_components proper with ⟨head, tail, whole, -, inner⟩
  rw [whole, begins, List.cons_append, List.cons.injEq] at shape
  intro component member
  apply inner
  rw [shape.2]
  exact List.mem_append_right others member

theorem join_of_nil {root : Path} (empty : root.bytes = []) (path : Path) :
    root.join path = path := by
  by_cases absolute : path.isAbsolute = true
  · simp [join, absolute]
  · simp [join, absolute, empty]

/-- What a path has beyond a root, written out and joined to the root, leads to its components. -/
theorem components_join_spelled {root path : Path} {rest : List Component}
    (shape : path.components = root.components ++ rest) :
    (root.join (spelled rest)).components = path.components := by
  by_cases empty : root.bytes = []
  · rw [components_eq_nil_iff.mpr empty, List.nil_append] at shape
    rw [join_of_nil empty, ← shape, components_spelled]
  · have inner := isInner_of_beyond empty shape
    rw [components_join empty (isAbsolute_spelled inner), filterMap_segments_spelled inner, shape]

end BundlePacker.Path
