import BundlePacker.Path

/-!
# Joined paths

The segments of two byte sequences with a slash between them are the segments of the first, then
those of the second.  Components are read off the segments, and so those of a joined path are those
of the base, followed by those of what was joined to it.
-/

namespace BundlePacker.Path

theorem ext {first second : Path} (same : first.bytes = second.bytes) : first = second := by
  cases first
  cases second
  cases same
  rfl

/-! ## Segments -/

theorem segments_append_slash (first second : Bytes) :
    segments (first ++ slash :: second) = segments first ++ segments second := by
  induction first with
  | nil =>
      simp [segments]
  | cons byte rest hypothesis =>
      rw [List.cons_append, segments, segments, hypothesis]
      by_cases same : byte = slash
      · simp [same]
      · cases pieces : segments rest with
        | nil => exact absurd pieces (segments_ne_nil rest)
        | cons head tail => simp [same]

theorem segments_of_not_mem {bytes : Bytes} (clean : slash ∉ bytes) :
    segments bytes = [bytes] := by
  induction bytes with
  | nil =>
      rfl
  | cons byte rest hypothesis =>
      have differs : byte ≠ slash := fun same => clean (same ▸ List.mem_cons_self ..)
      have later : slash ∉ rest := fun member => clean (List.mem_cons_of_mem _ member)
      simp [segments, differs, hypothesis later]

theorem joinSegments_cons (piece : Bytes) {others : List Bytes} (more : others ≠ []) :
    joinSegments (piece :: others) = piece ++ slash :: joinSegments others := by
  cases others with
  | nil => exact absurd rfl more
  | cons second later => rfl

/-- Segments without slashes, written with slashes between them, are found again. -/
theorem segments_joinSegments {pieces : List Bytes} (nonempty : pieces ≠ [])
    (clean : ∀ piece ∈ pieces, slash ∉ piece) : segments (joinSegments pieces) = pieces := by
  induction pieces with
  | nil =>
      exact absurd rfl nonempty
  | cons piece others hypothesis =>
      have first : segments piece = [piece] :=
        segments_of_not_mem (clean piece (List.mem_cons_self ..))
      cases others with
      | nil =>
          exact first
      | cons second more =>
          have later := hypothesis (by simp) fun other member =>
            clean other (List.mem_cons_of_mem _ member)
          rw [joinSegments_cons piece (List.cons_ne_nil second more), segments_append_slash,
            first, later, List.singleton_append]

theorem joinSegments_append {pieces others : List Bytes} (nonempty : pieces ≠ [])
    (more : others ≠ []) :
    joinSegments (pieces ++ others) = joinSegments pieces ++ slash :: joinSegments others := by
  induction pieces with
  | nil =>
      exact absurd rfl nonempty
  | cons piece rest hypothesis =>
      by_cases last : rest = []
      · subst last
        exact joinSegments_cons piece more
      · rw [List.cons_append, joinSegments_cons piece (by simp [last]), hypothesis last,
          joinSegments_cons piece last]
        simp

/-! ## Joining -/

/-- A relative path is joined by writing it after the base, with one slash between the two. -/
theorem join_cases (base : Path) {path : Path} (relative : path.isAbsolute = false) :
    (base.bytes = [] ∧ base.join path = path) ∨
      (∃ start, base.bytes = start ++ [slash] ∧
        base.join path = ⟨start ++ slash :: path.bytes⟩) ∨
      (base.bytes ≠ [] ∧ base.join path = ⟨base.bytes ++ slash :: path.bytes⟩) := by
  by_cases empty : base.bytes = []
  · left
    exact ⟨empty, by simp [join, relative, empty]⟩
  · right
    by_cases ends : base.endsInSlash = true
    · left
      have last : base.bytes.getLast? = some slash := by simpa [endsInSlash] using ends
      rcases List.getLast?_eq_some_iff.mp last with ⟨start, shape⟩
      exact ⟨start, shape, by simp [join, relative, ends, shape]⟩
    · right
      exact ⟨empty, by simp [join, relative, empty, ends]⟩

/-- Two names are joined one after the other, or both at once with a slash between them. -/
theorem join_join (base : Path) {first second : Bytes} (nonempty : first ≠ [])
    (ends : endsInSlash ⟨first⟩ = false) (relative : isAbsolute ⟨first⟩ = false)
    (relativeSecond : isAbsolute ⟨second⟩ = false) :
    (base.join ⟨first⟩).join ⟨second⟩ = base.join ⟨first ++ slash :: second⟩ := by
  have relativeBoth : isAbsolute ⟨first ++ slash :: second⟩ = false := by
    cases first with
    | nil =>
        exact absurd rfl nonempty
    | cons byte bytes =>
        simpa [isAbsolute] using relative
  have closes : ∀ start : Bytes, endsInSlash ⟨start ++ first⟩ = false := by
    intro start
    rcases List.eq_nil_or_concat first with empty | ⟨before, last, shape⟩
    · exact absurd empty nonempty
    · subst shape
      simpa [endsInSlash] using ends
  have after : ∀ start : Bytes, join ⟨start ++ first⟩ ⟨second⟩ =
      ⟨start ++ first ++ slash :: second⟩ := by
    intro start
    simp [join, relativeSecond, closes start, nonempty]
  by_cases bare : base.bytes = [] ∨ base.endsInSlash = true
  · simp only [join, relative, relativeBoth, Bool.false_eq_true, if_false, if_pos bare]
    simpa [join] using after base.bytes
  · simp only [join, relative, relativeBoth, Bool.false_eq_true, if_false, if_neg bare]
    simpa [join] using after (base.bytes ++ [slash])

/-! ## Components -/

/-- The components that the first segment of a path stands for; an empty one is the root. -/
def leading (segment : Bytes) : List Component :=
  if segment = [] then [.root] else (Component.ofFirstSegment? segment).toList

theorem components_eq {path : Path} (nonempty : path.bytes ≠ []) {first : Bytes}
    {others : List Bytes} (pieces : segments path.bytes = first :: others) :
    path.components = leading first ++ others.filterMap Component.ofSegment? := by
  rcases path with ⟨- | ⟨byte, rest⟩⟩
  · exact absurd rfl nonempty
  · by_cases same : byte = slash
    · subst same
      rw [segments, if_pos rfl, List.cons.injEq] at pieces
      rcases pieces with ⟨rfl, rfl⟩
      simp [components, leading]
    · have proper : first ≠ [] := by
        intro empty
        subst empty
        rw [segments, if_neg same] at pieces
        split at pieces <;> cases pieces
      simp only [components, same, if_false]
      rw [pieces]
      simp [leading, proper]

theorem components_join {base : Path} (nonempty : base.bytes ≠ []) {path : Path}
    (relative : path.isAbsolute = false) :
    (base.join path).components =
      base.components ++ (segments path.bytes).filterMap Component.ofSegment? := by
  rcases join_cases base relative with ⟨empty, -⟩ | ⟨start, shape, joined⟩ | ⟨-, joined⟩
  · exact absurd empty nonempty
  · cases pieces : segments start with
    | nil =>
        exact absurd pieces (segments_ne_nil start)
    | cons first others =>
        have before : segments base.bytes = first :: (others ++ [[]]) := by
          rw [shape, segments_append_slash, pieces]
          rfl
        have after : segments (base.join path).bytes =
            first :: (others ++ segments path.bytes) := by
          rw [joined, segments_append_slash, pieces]
          rfl
        rw [components_eq nonempty before, components_eq (by simp [joined]) after]
        simp [Component.ofSegment?]
  · cases pieces : segments base.bytes with
    | nil =>
        exact absurd pieces (segments_ne_nil base.bytes)
    | cons first others =>
        have after : segments (base.join path).bytes =
            first :: (others ++ segments path.bytes) := by
          rw [joined, segments_append_slash, pieces]
          rfl
        rw [components_eq nonempty pieces, components_eq (by simp [joined]) after]
        simp

end BundlePacker.Path
