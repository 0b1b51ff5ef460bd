import BundlePacker.Proofs.Path.Names

/-!
# Paths that lie higher

Taking the last component off a path again and again leads through paths that lie higher.  Each of
them is written as the path begins, and the path goes on with names of which at least one is no dot,
so that the way to the path leads through what the higher path means.

The main statements say so of every path above a path, and that the paths above its parent are all
of these but the path itself.
-/

namespace BundlePacker.Path

variable {path upper middle above : Path}

/-! ## How a shortened path is written -/

theorem isPrefix_joinSegments {pieces whole : List Bytes} (begins : pieces <+: whole) :
    joinSegments pieces <+: joinSegments whole := by
  rcases begins with ⟨rest, rfl⟩
  by_cases empty : pieces = []
  · rw [empty]
    exact List.nil_prefix
  · by_cases last : rest = []
    · simp [last]
    · rw [joinSegments_append empty last]
      exact List.prefix_append ..

/-- The parent of a path is written as the path begins. -/
theorem isPrefix_of_parent? (parent : path.parent? = some upper) : upper.bytes <+: path.bytes := by
  rcases path with ⟨- | ⟨byte, rest⟩⟩
  · cases parent
  · by_cases absolute : byte = slash
    · subst absolute
      simp only [parent?, if_true] at parent
      split at parent
      · cases parent
      · cases parent
        have begins := isPrefix_joinSegments (isPrefix_parentSegments (segments rest))
        rw [joinSegments_segments] at begins
        exact List.cons_prefix_cons.mpr ⟨rfl, begins⟩
    · simp only [parent?, if_neg absolute] at parent
      split at parent
      · cases parent
      next first others pieces =>
      have whole : joinSegments (first :: others) = byte :: rest := by
        rw [← pieces, joinSegments_segments]
      rw [← whole]
      split at parent
      · next dotted =>
        subst dotted
        split at parent
        · cases parent
          exact List.nil_prefix
        · cases parent
          exact isPrefix_joinSegments
            (List.cons_prefix_cons.mpr ⟨rfl, isPrefix_parentSegments others⟩)
      · cases parent
        exact isPrefix_joinSegments (isPrefix_parentSegments _)

theorem ne_nil_of_parent? (parent : path.parent? = some upper) : path.bytes ≠ [] := by
  intro empty
  simp [parent?, empty] at parent

/-! ## Higher paths -/

/-- Whether a path is how another one begins, which goes on with names that are not all dots. -/
structure Higher (upper path : Path) : Prop where
  bytes : upper.bytes <+: path.bytes
  names : ∃ rest, path.names = upper.names ++ rest ∧ ∃ last ∈ rest, last ≠ [dot]

theorem Higher.trans (first : Higher upper middle) (second : Higher middle path) :
    Higher upper path := by
  rcases first.names with ⟨between, shape, -⟩
  rcases second.names with ⟨rest, whole, last, member, proper⟩
  refine ⟨first.bytes.trans second.bytes, between ++ rest, ?_, last, ?_, proper⟩
  · rw [whole, shape, List.append_assoc]
  · exact List.mem_append_right between member

theorem Higher.isAbsolute_eq (higher : Higher upper path) (proper : upper.bytes ≠ []) :
    upper.isAbsolute = path.isAbsolute := by
  rcases higher.bytes with ⟨rest, whole⟩
  rcases List.exists_cons_of_ne_nil proper with ⟨byte, more, shape⟩
  simp [isAbsolute, ← whole, shape]

theorem higher_of_parent? (parent : path.parent? = some upper) (proper : upper.bytes ≠ []) :
    Higher upper path :=
  ⟨isPrefix_of_parent? parent, exists_names_of_parent? parent proper⟩

theorem length_lt_of_parent? (parent : path.parent? = some upper) :
    upper.bytes.length < path.bytes.length := by
  by_cases empty : upper.bytes = []
  · rw [empty]
    exact List.length_pos_iff.mpr (ne_nil_of_parent? parent)
  · have higher := higher_of_parent? parent empty
    refine Nat.lt_of_le_of_ne higher.bytes.length_le fun same => ?_
    have equal : upper = path := ext (higher.bytes.eq_of_length same)
    rcases higher.names with ⟨rest, whole, last, member, -⟩
    rw [equal, List.self_eq_append_right] at whole
    rw [whole] at member
    cases member

/-! ## All paths above a path -/

theorem higher_of_mem_ancestorsUpTo {count : Nat} (parent : path.parent? = some above)
    (member : upper ∈ ancestorsUpTo count above) (proper : upper.bytes ≠ []) :
    Higher upper path := by
  induction count generalizing path above with
  | zero =>
      cases member
  | succ count hypothesis =>
      rw [ancestorsUpTo] at member
      rcases List.mem_cons.mp member with rfl | further
      · exact higher_of_parent? parent proper
      · split at further
        · cases further
        · next next found =>
          exact (hypothesis found further).trans
            (higher_of_parent? parent (ne_nil_of_parent? found))

/-- All paths above a path but the path itself and the empty one lie higher. -/
theorem higher_of_mem_tail (member : upper ∈ path.ancestors.tail) (proper : upper.bytes ≠ []) :
    Higher upper path := by
  rw [ancestors, ancestorsUpTo, List.tail_cons] at member
  split at member
  · cases member
  · next above parent =>
    exact higher_of_mem_ancestorsUpTo parent member proper

theorem ancestorsUpTo_subset {few many : Nat} (enough : few ≤ many) (path : Path) :
    ancestorsUpTo few path ⊆ ancestorsUpTo many path := by
  induction few generalizing many path with
  | zero =>
      exact List.nil_subset _
  | succ few hypothesis =>
      cases many with
      | zero =>
          exact absurd enough (Nat.not_succ_le_zero few)
      | succ many =>
          rw [ancestorsUpTo, ancestorsUpTo]
          apply List.cons_subset_cons
          split
          · exact List.Subset.refl _
          · exact hypothesis (Nat.le_of_succ_le_succ enough) _

/-- The paths above the parent of a path are above the path, and none of them is the path. -/
theorem ancestors_subset_of_parent? (parent : path.parent? = some above) :
    above.ancestors ⊆ path.ancestors.tail := by
  have further : path.ancestors.tail = ancestorsUpTo path.bytes.length above := by
    rw [ancestors, ancestorsUpTo, List.tail_cons, parent]
  rw [further, ancestors]
  exact ancestorsUpTo_subset (length_lt_of_parent? parent) above

end BundlePacker.Path
