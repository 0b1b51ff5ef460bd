import BundlePacker.Proofs.Archive.EntryName
import BundlePacker.Proofs.Path.Spelling

/-!
# Names below any root

The name of an entry is what its path has beyond the root, and the root may be written in any way:
with dots, with repeated slashes, in bytes that are no text, or not at all.  The main statement is
that naming undoes joining.  A name exists exactly when the components of the root begin those of
the path and the others are text, and the name joined to the root leads to the components of the
path.
-/

namespace BundlePacker.Archive

open BundlePacker.Path (joinSegments spelled)

theorem below?_eq_none_iff {root path : Path} :
    root.below? path = none ↔ ¬ root.components <+: path.components := by
  rw [Option.eq_none_iff_forall_ne_some]
  constructor
  · rintro outside ⟨rest, shape⟩
    exact outside rest (Path.afterPrefix?_eq_some_iff.mpr shape.symm)
  · intro outside rest found
    exact outside ⟨rest, (Path.afterPrefix?_eq_some_iff.mp found).symm⟩

/-- The bytes of some components are texts exactly when the components have texts. -/
theorem exists_texts_iff {components : List Path.Component} :
    (∃ texts, componentTexts? components = some texts) ↔
      ∀ component ∈ components, IsText component.bytes := by
  have range : (∃ texts, componentTexts? components = some texts) ↔
      components.map Path.Component.bytes ∈ Set.range (List.map Utf8.ofString) := by
    constructor
    · rintro ⟨texts, read⟩
      exact ⟨texts, (componentTexts?_eq_some_iff.mp read).symm⟩
    · rintro ⟨texts, same⟩
      exact ⟨texts, componentTexts?_eq_some_iff.mpr same.symm⟩
  rw [range, Set.range_list_map]
  constructor
  · intro each component member
    exact each component.bytes (List.mem_map_of_mem member)
  · intro each bytes member
    rcases List.mem_map.mp member with ⟨component, among, rfl⟩
    exact each component among

/-- A name is the text of the components beyond the root, with slashes between them. -/
theorem entryName_eq_ok_iff {root path : Path} {name : String} :
    entryName root path = .ok name ↔
      ∃ rest, path.components = root.components ++ rest ∧ Path.ofString name = spelled rest := by
  constructor
  · intro named
    rw [entryName] at named
    split at named
    · cases named
    next rest found =>
    split at named
    · cases named
    next texts read =>
    cases named
    refine ⟨rest, Path.afterPrefix?_eq_some_iff.mp found, ?_⟩
    rw [Path.ofString, spelled, ofString_intercalate, componentTexts?_eq_some_iff.mp read]
  · rintro ⟨rest, shape, written⟩
    have bytes : Utf8.ofString name = joinSegments (rest.map Path.Component.bytes) :=
      congrArg Path.bytes written
    have each : ∀ component ∈ rest, IsText component.bytes := by
      intro component member
      exact isText_joinSegments.mp ⟨name, bytes⟩ _ (List.mem_map_of_mem member)
    rcases exists_texts_iff.mpr each with ⟨texts, read⟩
    have whole : String.intercalate "/" texts = name := by
      apply Utf8.ofString_injective
      rw [ofString_intercalate, bytes, componentTexts?_eq_some_iff.mp read]
    have found : root.below? path = some rest := Path.afterPrefix?_eq_some_iff.mpr shape
    simp only [entryName, found, read, whole]

theorem exists_entryName_iff {root path : Path} :
    (∃ name, entryName root path = .ok name) ↔
      ∃ rest, path.components = root.components ++ rest ∧
        ∀ component ∈ rest, IsText component.bytes := by
  constructor
  · rintro ⟨name, named⟩
    rcases entryName_eq_ok_iff.mp named with ⟨rest, shape, written⟩
    refine ⟨rest, shape, fun component member => ?_⟩
    exact isText_joinSegments.mp ⟨name, congrArg Path.bytes written⟩ _ (List.mem_map_of_mem member)
  · rintro ⟨rest, shape, each⟩
    have text : IsText (joinSegments (rest.map Path.Component.bytes)) := by
      apply isText_joinSegments.mpr
      intro bytes member
      rcases List.mem_map.mp member with ⟨component, among, rfl⟩
      exact each component among
    rcases text with ⟨name, bytes⟩
    exact ⟨name, entryName_eq_ok_iff.mpr ⟨rest, shape, Path.ext bytes⟩⟩

/-- Whether the path lies below the root is looked at before whether its names are text. -/
theorem entryName_eq_outsideTree_iff {root path : Path} :
    entryName root path = .error (.outsideTree path root) ↔
      ¬ root.components <+: path.components := by
  rw [← below?_eq_none_iff]
  cases found : root.below? path with
  | none =>
      simp [entryName, found]
  | some rest =>
      cases read : componentTexts? rest with
      | none => simp [entryName, found, read]
      | some texts => simp [entryName, found, read]

theorem entryName_eq_nameNotText_iff {root path : Path} :
    entryName root path = .error (.nameNotText path) ↔
      ∃ rest, path.components = root.components ++ rest ∧
        ∃ component ∈ rest, ¬ IsText component.bytes := by
  constructor
  · intro refused
    rw [entryName] at refused
    split at refused
    · cases refused
    next rest found =>
    split at refused
    · next unread =>
      refine ⟨rest, Path.afterPrefix?_eq_some_iff.mp found, ?_⟩
      have some_bad : ¬ ∀ component ∈ rest, IsText component.bytes := by
        rw [← exists_texts_iff, unread]
        rintro ⟨texts, read⟩
        cases read
      simpa using some_bad
    · cases refused
  · rintro ⟨rest, shape, component, member, bad⟩
    have found : root.below? path = some rest := Path.afterPrefix?_eq_some_iff.mpr shape
    have unread : componentTexts? rest = none := by
      rw [Option.eq_none_iff_forall_ne_some]
      intro texts read
      exact bad (exists_texts_iff.mp ⟨texts, read⟩ component member)
    simp only [entryName, found, unread]

/-- Joined to the root, a name leads to the components of the path that it was found for. -/
theorem components_join_entryName {root path : Path} {name : String}
    (named : entryName root path = .ok name) :
    (root.join (.ofString name)).components = path.components := by
  rcases entryName_eq_ok_iff.mp named with ⟨rest, shape, written⟩
  rw [written]
  exact Path.components_join_spelled shape

/-- Only the components of a path decide its name. -/
theorem entryName_ok_congr {root path other : Path} {name : String}
    (same : other.components = path.components) :
    entryName root other = .ok name ↔ entryName root path = .ok name := by
  rw [entryName_eq_ok_iff, entryName_eq_ok_iff, same]

/--
Naming undoes joining, for every root and every path.  There is a name exactly when the path lies
below the root by its components and the others are text; a path outside of the root is reported as
that, whatever its bytes are; and the name, joined to the root, has the components and the name of
the path, so that no two paths with other components share it.
-/
theorem entryName_inverts_join (root path : Path) :
    ((∃ name, entryName root path = .ok name) ↔
      ∃ rest, path.components = root.components ++ rest ∧
        ∀ component ∈ rest, IsText component.bytes) ∧
    (¬ root.components <+: path.components →
      ∃ fault, entryName root path = .error fault ∧
        fault.message = path.display ++ " is outside " ++ root.display) ∧
    (entryName root path = .error (.nameNotText path) ↔
      ∃ rest, path.components = root.components ++ rest ∧
        ∃ component ∈ rest, ¬ IsText component.bytes) ∧
    ∀ name, entryName root path = .ok name →
      (root.join (.ofString name)).components = path.components ∧
      entryName root (root.join (.ofString name)) = .ok name ∧
      ∀ other, entryName root other = .ok name → other.components = path.components := by
  refine ⟨exists_entryName_iff, ?outside, entryName_eq_nameNotText_iff, ?named⟩
  case outside =>
    intro outside
    exact ⟨.outsideTree path root, entryName_eq_outsideTree_iff.mpr outside, rfl⟩
  case named =>
    intro name named
    have joined : (root.join (.ofString name)).components = path.components :=
      components_join_entryName named
    refine ⟨joined, (entryName_ok_congr joined).mpr named, ?_⟩
    intro other also
    rw [← components_join_entryName also, joined]

/-- A root that is no text, written with a dot in front and slashes behind. -/
def byteRoot : Path :=
  ⟨[Path.dot, Path.slash, 0xFF, Path.slash, Path.slash]⟩

/-- A path below that root, which is written in another way and climbs. -/
def byteClimb : Path :=
  ⟨[Path.dot, Path.slash, Path.slash, 0xFF, Path.slash, Path.dot, Path.slash, Path.dot, Path.dot,
    Path.slash, 0x62]⟩

/-- A path that is no text and lies elsewhere. -/
def byteElsewhere : Path :=
  ⟨[0xFF, Path.slash, 0x62]⟩

theorem entryName_inverts_join_byteRoot :
    entryName byteRoot byteClimb = .ok "../b" ∧
      (byteRoot.join (.ofString "../b")).components = byteClimb.components ∧
      ¬ byteRoot.components <+: byteElsewhere.components ∧
      ∃ fault, entryName byteRoot byteElsewhere = .error fault ∧
        fault.message = byteElsewhere.display ++ " is outside " ++ byteRoot.display := by
  have named : entryName byteRoot byteClimb = .ok "../b" := by decide
  have outside : ¬ byteRoot.components <+: byteElsewhere.components := by decide
  exact ⟨named, ((entryName_inverts_join byteRoot byteClimb).2.2.2 "../b" named).1, outside,
    (entryName_inverts_join byteRoot byteElsewhere).2.1 outside⟩

end BundlePacker.Archive
