import BundlePacker.Proofs.Path.Join

/-!
# The names of joined and shortened paths

A path is looked up by its names, so what joining and shortening do to a path is said by what they
do to its names.  Joining appends the names of what is joined; taking the last component off leaves
names that the path begins with.  The main statement is that the same is true of every path that
lies above another one.
-/

namespace BundlePacker.Path

/-! ## Joining -/

theorem names_append_slash (first second : Bytes) :
    names ⟨first ++ slash :: second⟩ = names ⟨first⟩ ++ names ⟨second⟩ := by
  rw [names, names, names, segments_append_slash, List.filter_append]

@[simp]
theorem names_nil : names ⟨[]⟩ = [] :=
  rfl

/-- The names of a joined path are those of the base and then those of what was joined to it. -/
theorem names_join {base : Path} (nonempty : base.bytes ≠ []) {path : Path}
    (relative : path.isAbsolute = false) : (base.join path).names = base.names ++ path.names := by
  rcases join_cases base relative with ⟨empty, -⟩ | ⟨start, shape, joined⟩ | ⟨-, joined⟩
  · exact absurd empty nonempty
  · have before : base.names = names ⟨start⟩ := by
      have own : base = ⟨start ++ slash :: []⟩ := ext shape
      rw [own, names_append_slash, names_nil, List.append_nil]
    rw [joined, names_append_slash, before]
  · rw [joined, names_append_slash]

theorem join_ne_nil {base : Path} (nonempty : base.bytes ≠ []) {path : Path}
    (relative : path.isAbsolute = false) : (base.join path).bytes ≠ [] := by
  rcases join_cases base relative with ⟨empty, -⟩ | ⟨start, -, joined⟩ | ⟨-, joined⟩
  · exact absurd empty nonempty
  · simp [joined]
  · simp [joined]

/-- A joined path starts where its base starts. -/
theorem isAbsolute_join {base : Path} (nonempty : base.bytes ≠ []) {path : Path}
    (relative : path.isAbsolute = false) : (base.join path).isAbsolute = base.isAbsolute := by
  rcases join_cases base relative with ⟨empty, -⟩ | ⟨start, shape, joined⟩ | ⟨-, joined⟩
  · exact absurd empty nonempty
  · cases start <;> simp [isAbsolute, joined, shape]
  · cases bytes : base.bytes with
    | nil => exact absurd bytes nonempty
    | cons byte rest => simp [isAbsolute, joined, bytes]

/-- A joined path ends in a slash when what was joined does. -/
theorem endsInSlash_join {base path : Path} (relative : path.isAbsolute = false)
    (nonempty : path.bytes ≠ []) : (base.join path).endsInSlash = path.endsInSlash := by
  have last : ∀ before, (before ++ slash :: path.bytes).getLast? = path.bytes.getLast? := by
    intro before
    rw [List.append_cons, List.getLast?_append, List.getLast?_eq_some_getLast nonempty,
      Option.some_or]
  rcases join_cases base relative with ⟨-, joined⟩ | ⟨start, -, joined⟩ | ⟨-, joined⟩
  · rw [joined]
  · rw [joined, endsInSlash, endsInSlash, last]
  · rw [joined, endsInSlash, endsInSlash, last]

/-! ## The last segment -/

/-- What is written after the last slash belongs to the last segment. -/
theorem segments_append {bytes ending : Bytes} (clean : slash ∉ ending) :
    ∃ before last, segments bytes = before ++ [last] ∧
      segments (bytes ++ ending) = before ++ [last ++ ending] := by
  induction bytes with
  | nil =>
      exact ⟨[], [], rfl, segments_of_not_mem clean⟩
  | cons byte rest hypothesis =>
      rcases hypothesis with ⟨before, last, whole, longer⟩
      rw [List.cons_append, segments, segments, whole, longer]
      by_cases same : byte = slash
      · exact ⟨[] :: before, last, by simp [same], by simp [same]⟩
      · cases before with
        | nil => exact ⟨[], byte :: last, by simp [same], by simp [same]⟩
        | cons first others =>
            exact ⟨(byte :: first) :: others, last, by simp [same], by simp [same]⟩

/-! ## The paths above a path -/

theorem isPrefix_trimSegments (pieces : List Bytes) : trimSegments pieces <+: pieces := by
  rw [trimSegments, ← List.reverse_suffix, List.reverse_reverse]
  exact List.dropWhile_suffix _

theorem isPrefix_parentSegments (pieces : List Bytes) : parentSegments pieces <+: pieces := by
  have shorter := (List.dropLast_prefix (trimSegments pieces)).trans (isPrefix_trimSegments pieces)
  exact (isPrefix_trimSegments _).trans shorter

/-- The segments that some segments begin with, written out, have names that those begin with. -/
theorem isPrefix_names_joinSegments {pieces whole : List Bytes} (begins : pieces <+: whole)
    (clean : ∀ piece ∈ whole, slash ∉ piece) :
    names ⟨joinSegments pieces⟩ <+: whole.filter fun piece => piece ≠ [] := by
  by_cases empty : pieces = []
  · subst empty
    exact List.nil_prefix
  · rw [names, segments_joinSegments empty fun piece member => clean piece (begins.subset member)]
    exact begins.filter _

/-- Where a shortened path starts and which names it still has. -/
structure Above (upper path : Path) : Prop where
  names : upper.names <+: path.names
  starts : upper.bytes ≠ [] → upper.isAbsolute = path.isAbsolute

theorem Above.refl (path : Path) : Above path path :=
  ⟨List.prefix_rfl, fun _ => rfl⟩

theorem Above.trans {upper middle path : Path} (first : Above upper middle)
    (second : Above middle path) (nonempty : middle.bytes ≠ []) : Above upper path :=
  ⟨first.names.trans second.names, fun proper =>
    (first.starts proper).trans (second.starts nonempty)⟩

theorem isAbsolute_joinSegments_of_head {byte : UInt8} {first : Bytes} {others : List Bytes} :
    isAbsolute ⟨joinSegments ((byte :: first) :: others)⟩ = isAbsolute ⟨[byte]⟩ := by
  cases others <;> simp [joinSegments, isAbsolute]

/-- The first segment of a path that does not begin with a slash begins as the path does. -/
theorem head_of_segments {byte : UInt8} {rest first : Bytes} {others : List Bytes}
    (differs : byte ≠ slash) (pieces : segments (byte :: rest) = first :: others) :
    ∃ more, first = byte :: more := by
  rw [segments, if_neg differs] at pieces
  split at pieces
  · cases pieces
    exact ⟨[], rfl⟩
  · cases pieces
    exact ⟨_, rfl⟩

/-- Segments that others begin with are written to a path above the one of the others. -/
theorem above_joinSegments {pieces : List Bytes} {byte : UInt8} {rest : Bytes}
    (differs : byte ≠ slash) (begins : pieces <+: segments (byte :: rest)) :
    Above ⟨joinSegments pieces⟩ ⟨byte :: rest⟩ := by
  refine ⟨isPrefix_names_joinSegments begins fun piece => slash_not_mem_of_mem_segments, ?_⟩
  intro proper
  rcases begins with ⟨after, shape⟩
  cases pieces with
  | nil =>
      exact absurd rfl proper
  | cons first others =>
      rcases head_of_segments differs shape.symm with ⟨more, rfl⟩
      rw [isAbsolute_joinSegments_of_head]
      simp [isAbsolute]

theorem above_of_parent? {path upper : Path} (parent : path.parent? = some upper) :
    Above upper path := by
  rcases path with ⟨- | ⟨byte, rest⟩⟩
  · cases parent
  · by_cases absolute : byte = slash
    · subst absolute
      simp only [parent?, if_true] at parent
      split at parent
      · cases parent
      · cases parent
        have whole : names ⟨slash :: rest⟩ = names ⟨rest⟩ := by
          simp [names, segments]
        have own : names ⟨slash :: joinSegments (parentSegments (segments rest))⟩ =
            names ⟨joinSegments (parentSegments (segments rest))⟩ := by
          simp [names, segments]
        refine ⟨?_, fun _ => by simp [isAbsolute]⟩
        rw [whole, own]
        exact isPrefix_names_joinSegments (isPrefix_parentSegments _)
          fun piece => slash_not_mem_of_mem_segments
    · simp only [parent?, if_neg absolute] at parent
      split at parent
      · cases parent
      next first others pieces =>
      split at parent
      · next dotted =>
        subst dotted
        split at parent
        · cases parent
          exact ⟨List.nil_prefix, fun proper => absurd rfl proper⟩
        · cases parent
          apply above_joinSegments absolute
          rw [pieces]
          exact List.cons_prefix_cons.mpr ⟨rfl, isPrefix_parentSegments others⟩
      · cases parent
        apply above_joinSegments absolute
        rw [pieces]
        exact isPrefix_parentSegments _

theorem trimSegments_cons_ne_nil {first : Bytes} (nonempty : first ≠ []) (neDot : first ≠ [dot])
    (others : List Bytes) : trimSegments (first :: others) ≠ [] := by
  rw [trimSegments, ne_eq, List.reverse_eq_nil_iff, List.reverse_cons, List.dropWhile_append]
  split <;> simp [nonempty, neDot]

/-- What is taken off a path has a last segment that stands for a component. -/
theorem exists_parentSegments {pieces : List Bytes} (component : trimSegments pieces ≠ []) :
    ∃ rest, pieces = parentSegments pieces ++ rest ∧ ∃ last ∈ rest, last ≠ [] ∧ last ≠ [dot] := by
  rcases List.eq_nil_or_concat (trimSegments pieces) with none | ⟨start, last, shape⟩
  · exact absurd none component
  rw [List.concat_eq_append] at shape
  have solid : ¬ (last = [] ∨ last = [dot]) := by
    have reversed : pieces.reverse.dropWhile (fun segment => segment = [] ∨ segment = [dot]) =
        last :: start.reverse := by
      rw [trimSegments, List.reverse_eq_iff] at shape
      simpa using shape
    have first := List.head?_dropWhile_not
      (fun segment : Bytes => decide (segment = [] ∨ segment = [dot])) pieces.reverse
    rw [reversed] at first
    simpa using first
  rcases isPrefix_trimSegments pieces with ⟨blank, whole⟩
  rcases isPrefix_trimSegments start with ⟨between, before⟩
  have parent : parentSegments pieces = trimSegments start := by
    rw [parentSegments, shape, List.dropLast_concat]
  refine ⟨between ++ last :: blank, ?_, last, by simp, not_or.mp solid⟩
  rw [parent, ← List.append_assoc, before, List.append_cons, ← shape, whole]

theorem names_joinSegments_append {pieces rest : List Bytes}
    (clean : ∀ piece ∈ pieces ++ rest, slash ∉ piece) :
    ((pieces ++ rest).filter fun piece => piece ≠ []) =
      names ⟨joinSegments pieces⟩ ++ rest.filter fun piece => piece ≠ [] := by
  rw [List.filter_append]
  by_cases empty : pieces = []
  · subst empty
    rfl
  · rw [names, segments_joinSegments empty fun piece member =>
      clean piece (List.mem_append_left _ member)]

/-- The names that the parent leaves out are not all dots. -/
theorem exists_names_of_parent? {path upper : Path} (parent : path.parent? = some upper)
    (proper : upper.bytes ≠ []) :
    ∃ rest, path.names = upper.names ++ rest ∧ ∃ last ∈ rest, last ≠ [dot] := by
  have named : ∀ {bytes : Bytes} {pieces rest : List Bytes}, segments bytes = pieces ++ rest →
      (∃ last ∈ rest, last ≠ [] ∧ last ≠ [dot]) →
      ∃ rest, names ⟨bytes⟩ = names ⟨joinSegments pieces⟩ ++ rest ∧ ∃ last ∈ rest, last ≠ [dot] := by
    rintro bytes pieces rest shape ⟨last, member, nonempty, neDot⟩
    refine ⟨rest.filter fun piece => piece ≠ [], ?_, last, by simp [member, nonempty], neDot⟩
    rw [names, shape]
    exact names_joinSegments_append fun piece inside =>
      slash_not_mem_of_mem_segments (shape.symm ▸ inside)
  rcases path with ⟨- | ⟨byte, rest⟩⟩
  · cases parent
  · by_cases absolute : byte = slash
    · subst absolute
      simp only [parent?, if_true] at parent
      split at parent
      · cases parent
      · next component =>
        cases parent
        rcases exists_parentSegments component with ⟨more, shape, ends⟩
        simpa [names, segments] using named shape ends
    · simp only [parent?, if_neg absolute] at parent
      split at parent
      · cases parent
      next first others pieces =>
      split at parent
      · next dotted =>
        subst dotted
        split at parent
        · cases parent
          exact absurd rfl proper
        · next component =>
          cases parent
          rcases exists_parentSegments component with ⟨more, shape, ends⟩
          refine named ?_ ends
          rw [pieces, List.cons_append, ← shape]
      · next undotted =>
        cases parent
        have component : trimSegments (first :: others) ≠ [] := by
          rcases head_of_segments absolute pieces with ⟨more, shape⟩
          exact trimSegments_cons_ne_nil (by simp [shape]) undotted others
        rcases exists_parentSegments component with ⟨more, shape, ends⟩
        exact named (pieces.trans shape) ends

theorem eq_of_mem_ancestors_nil {path upper : Path} (empty : path.bytes = [])
    (member : upper ∈ path.ancestors) : upper = path := by
  simpa [ancestors, ancestorsUpTo, parent?, empty] using member

/-- Every path above a path has names that the path begins with. -/
theorem above_of_mem_ancestors {path upper : Path} (member : upper ∈ path.ancestors) :
    Above upper path := by
  rw [ancestors] at member
  generalize path.bytes.length + 1 = count at member
  induction count generalizing path with
  | zero =>
      cases member
  | succ count hypothesis =>
      rw [ancestorsUpTo] at member
      rcases List.mem_cons.mp member with rfl | higher
      · exact .refl _
      · split at higher
        · cases higher
        · next parent found =>
          have first := above_of_parent? found
          by_cases empty : parent.bytes = []
          · -- An empty path has no path above it.
            have last : upper = parent := by
              cases count with
              | zero => cases higher
              | succ count => simpa [ancestorsUpTo, parent?, empty] using higher
            exact last ▸ first
          · exact (hypothesis higher).trans first empty

/-- What is above a path that is above another one is above that one as well. -/
theorem Above.of_mem_ancestors {path upper whole : Path} (above : Above path whole)
    (member : upper ∈ path.ancestors) : Above upper whole := by
  by_cases empty : path.bytes = []
  · rw [eq_of_mem_ancestors_nil empty member]
    exact above
  · exact (above_of_mem_ancestors member).trans above empty

end BundlePacker.Path
