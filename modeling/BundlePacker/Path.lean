import BundlePacker.Text.Utf8

/-!
# Paths

A path is the bytes that a caller wrote.  It is never normalised: what two spellings have in common
is the list of their components.  Three readings of the bytes live here: the components, in which
repeated slashes and inner dots vanish; the parent, which is what remains once the last component
is taken off; and the names that a file system looks up one after the other.
-/

namespace BundlePacker

/-- A path as its caller wrote it. -/
structure Path where
  bytes : Bytes
deriving DecidableEq

namespace Path

/-- The byte between two names of a path. -/
abbrev slash : UInt8 :=
  0x2F

/-- The byte of which the names for a directory itself and for its parent consist. -/
abbrev dot : UInt8 :=
  0x2E

/-- The path with the bytes of a text. -/
def ofString (text : String) : Path :=
  ⟨Utf8.ofString text⟩

/-- A path as it is shown in messages: an ill-formed part becomes a replacement character. -/
def display (path : Path) : String :=
  Utf8.lossy path.bytes

/-- Whether a path begins at the root of the file system. -/
def isAbsolute (path : Path) : Bool :=
  path.bytes.head? = some slash

/-- Whether a path ends in a slash and so can only mean a directory. -/
def endsInSlash (path : Path) : Bool :=
  path.bytes.getLast? = some slash

/-- The pieces between the slashes of a byte sequence: one more than it has slashes. -/
def segments : Bytes → List Bytes
  | [] => [[]]
  | byte :: rest =>
    if byte = slash then
      [] :: segments rest
    else
      match segments rest with
      | [] => [[byte]]
      | first :: others => (byte :: first) :: others

/-- One step of a path. -/
inductive Component where
  /-- The leading slash. -/
  | root
  /-- A leading dot. -/
  | current
  /-- Two dots. -/
  | parent
  /-- Anything else between slashes. -/
  | name (bytes : Bytes)
deriving DecidableEq

/-- A component as it is written. -/
def Component.bytes : Component → Bytes
  | root => [slash]
  | current => [dot]
  | parent => [dot, dot]
  | name bytes => bytes

/-- The component that a segment after the first one stands for; empty ones and dots vanish. -/
def Component.ofSegment? (segment : Bytes) : Option Component :=
  if segment = [] ∨ segment = [dot] then none
  else if segment = [dot, dot] then some parent
  else some (name segment)

/-- The component that the first segment of a relative path stands for; a dot is kept. -/
def Component.ofFirstSegment? (segment : Bytes) : Option Component :=
  if segment = [dot] then some current else ofSegment? segment

/-- The components of a path, in order. -/
def components (path : Path) : List Component :=
  match path.bytes with
  | [] => []
  | byte :: rest =>
    if byte = slash then
      .root :: (segments rest).filterMap Component.ofSegment?
    else
      match segments (byte :: rest) with
      | [] => []
      | first :: others =>
        (Component.ofFirstSegment? first).toList ++ others.filterMap Component.ofSegment?

/-- The last component, when it is a name. -/
def fileName? (path : Path) : Option Bytes :=
  match path.components.getLast? with
  | some (.name bytes) => some bytes
  | _ => none

/-- The names that have to be looked up one after the other; dots are among them. -/
def names (path : Path) : List Bytes :=
  (segments path.bytes).filter fun segment => segment ≠ []

/--
A path below a base.  An absolute one replaces the base; otherwise exactly one slash stands between
the two, unless the base is empty.
-/
def join (base path : Path) : Path :=
  if path.isAbsolute then path
  else if base.bytes = [] ∨ base.endsInSlash then ⟨base.bytes ++ path.bytes⟩
  else ⟨base.bytes ++ slash :: path.bytes⟩

/-- Drop the segments at the end that stand for no component. -/
def trimSegments (trailing : List Bytes) : List Bytes :=
  (trailing.reverse.dropWhile fun segment => segment = [] ∨ segment = [dot]).reverse

/-- Write segments with a slash between any two. -/
def joinSegments : List Bytes → Bytes
  | [] => []
  | [segment] => segment
  | segment :: rest => segment ++ slash :: joinSegments rest

/-- Take off the last component and what stood for no component before it. -/
def parentSegments (body : List Bytes) : List Bytes :=
  trimSegments (trimSegments body).dropLast

/--
The path without its last component.  The root and the empty path have no parent; a single relative
component has the empty one.
-/
def parent? (path : Path) : Option Path :=
  match path.bytes with
  | [] => none
  | byte :: rest =>
    if byte = slash then
      if trimSegments (segments rest) = [] then none
      else some ⟨slash :: joinSegments (parentSegments (segments rest))⟩
    else
      match segments (byte :: rest) with
      | [] => none
      | first :: others =>
        if first = [dot] then
          if trimSegments others = [] then some ⟨[]⟩
          else some ⟨joinSegments ([dot] :: parentSegments others)⟩
        else
          some ⟨joinSegments (parentSegments (first :: others))⟩

/-- At most the given number of paths: the path, its parent, and so on. -/
def ancestorsUpTo : Nat → Path → List Path
  | 0, _ => []
  | count + 1, path =>
    path ::
      match path.parent? with
      | none => []
      | some parent => ancestorsUpTo count parent

/-- The path, its parent, the parent of that, and so on to the last one; each is shorter. -/
def ancestors (path : Path) : List Path :=
  ancestorsUpTo (path.bytes.length + 1) path

/-- What remains of one list of components after another one that begins it. -/
def afterPrefix? : List Component → List Component → Option (List Component)
  | [], rest => some rest
  | _ :: _, [] => none
  | expected :: others, found :: rest =>
    if expected = found then afterPrefix? others rest else none

/-- The components of a path below a root, when the root's components begin it. -/
def below? (root path : Path) : Option (List Component) :=
  afterPrefix? root.components path.components

theorem afterPrefix?_eq_some_iff {start whole rest : List Component} :
    afterPrefix? start whole = some rest ↔ whole = start ++ rest := by
  induction start generalizing whole with
  | nil => simp [afterPrefix?, eq_comm]
  | cons component others hypothesis =>
    cases whole with
    | nil => simp [afterPrefix?]
    | cons found remaining =>
      by_cases same : component = found
      · simp [afterPrefix?, same, hypothesis]
      · simp [afterPrefix?, same, Ne.symm same]

theorem segments_ne_nil (bytes : Bytes) : segments bytes ≠ [] := by
  cases bytes with
  | nil => simp [segments]
  | cons byte rest =>
    simp only [segments]
    split
    · simp
    · split <;> simp

theorem slash_not_mem_of_mem_segments {bytes segment : Bytes} (member : segment ∈ segments bytes) :
    slash ∉ segment := by
  induction bytes generalizing segment with
  | nil => simp_all [segments]
  | cons byte rest hypothesis =>
    simp only [segments] at member
    split at member
    · rcases List.mem_cons.mp member with rfl | later
      · simp
      · exact hypothesis later
    · next differs =>
      split at member
      · next none_left => exact absurd none_left (segments_ne_nil rest)
      · next first others pieces =>
        rw [pieces] at hypothesis
        rcases List.mem_cons.mp member with rfl | later
        · have clean : slash ∉ first := hypothesis (List.mem_cons_self ..)
          simp [Ne.symm differs, clean]
        · exact hypothesis (List.mem_cons_of_mem _ later)

theorem mem_of_mem_segments {bytes segment : Bytes} {byte : UInt8}
    (member : segment ∈ segments bytes) (inside : byte ∈ segment) : byte ∈ bytes := by
  induction bytes generalizing segment with
  | nil => simp_all [segments]
  | cons head rest hypothesis =>
    simp only [segments] at member
    split at member
    · rcases List.mem_cons.mp member with rfl | later
      · simp at inside
      · exact List.mem_cons_of_mem _ (hypothesis later inside)
    · split at member
      · next none_left => exact absurd none_left (segments_ne_nil rest)
      · next first others pieces =>
        rw [pieces] at hypothesis
        rcases List.mem_cons.mp member with rfl | later
        · rcases List.mem_cons.mp inside with rfl | further
          · exact List.mem_cons_self ..
          · exact List.mem_cons_of_mem _ (hypothesis (List.mem_cons_self ..) further)
        · exact List.mem_cons_of_mem _ (hypothesis (List.mem_cons_of_mem _ later) inside)

/-- The pieces between slashes, written with slashes between them, are the whole. -/
@[simp]
theorem joinSegments_segments (bytes : Bytes) : joinSegments (segments bytes) = bytes := by
  induction bytes with
  | nil => simp [segments, joinSegments]
  | cons byte rest hypothesis =>
    simp only [segments]
    split
    · next same =>
      cases pieces : segments rest with
      | nil => exact absurd pieces (segments_ne_nil rest)
      | cons first others =>
        rw [pieces] at hypothesis
        simp [joinSegments, hypothesis, same]
    · cases pieces : segments rest with
      | nil => exact absurd pieces (segments_ne_nil rest)
      | cons first others =>
        rw [pieces] at hypothesis
        cases others with
        | nil => simpa [joinSegments] using hypothesis
        | cons second later => simpa [joinSegments] using hypothesis

end Path

end BundlePacker
