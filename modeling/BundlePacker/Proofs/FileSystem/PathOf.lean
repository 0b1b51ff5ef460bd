import BundlePacker.FileSystem.Trees
import BundlePacker.Proofs.FileSystem.Lookup
import BundlePacker.Proofs.Path.Join

/-!
# The paths of locations

Every location has one path that spells it from the root, with neither links nor dots in it.  Its
names are the names of the location, joining to it spells a location further down, and its parent
spells the location above.  Such a path is resolved without detours: what it leads to is decided by
the entry that stands at the location, as long as the system takes the path at all.
-/

namespace BundlePacker.FileSystem

open BundlePacker.Path (slash segments joinSegments)

/-- Whether bytes can stand between two slashes and name something there. -/
structure IsSegment (bytes : Bytes) : Prop where
  nonempty : bytes ≠ []
  noSlash : slash ∉ bytes
  neSelf : bytes ≠ selfName
  neParent : bytes ≠ parentName

theorem IsName.isSegment {name : Name} (isName : IsName name) : IsSegment name :=
  ⟨isName.nonempty, isName.no_slash, isName.ne_self, isName.ne_parent⟩

theorem WellFormed.isName_of_mem {system : FileSystem} (wellFormed : system.WellFormed)
    {location : Location} (stands : system.node? location ≠ none) :
    ∀ name ∈ location, IsName name := by
  intro name member
  rcases List.append_of_mem member with ⟨before, after, rfl⟩
  have inside : before ++ [name] <+: before ++ name :: after := ⟨after, by simp⟩
  have entry : system.node? (before ++ [name]) ≠ none := by
    by_cases last : after = []
    · simpa [last] using stands
    · have above := wellFormed.node?_above stands inside (by simpa using last)
      simp [above]
  exact (wellFormed.placed before name entry).2

theorem WellFormed.isSegment_of_mem {system : FileSystem} (wellFormed : system.WellFormed)
    {location : Location} (stands : system.node? location ≠ none) :
    ∀ name ∈ location, IsSegment name :=
  fun name member => (wellFormed.isName_of_mem stands name member).isSegment

theorem WellFormed.isSegment_append {system : FileSystem} (wellFormed : system.WellFormed)
    {directory : Location} (stands : system.node? directory = some .directory) {name : Name}
    (solid : IsSegment name) : ∀ other ∈ directory ++ [name], IsSegment other := by
  intro other member
  rcases List.mem_append.mp member with early | last
  · exact wellFormed.isSegment_of_mem (by simp [stands]) other early
  · exact List.mem_singleton.mp last ▸ solid

theorem WellFormed.directory_above {system : FileSystem} (wellFormed : system.WellFormed)
    {above rest : Location} (stands : system.node? (above ++ rest) = some .directory) :
    system.node? above = some .directory := by
  by_cases last : rest = []
  · simpa [last] using stands
  · have entry : system.node? (above ++ rest) ≠ none := by
      rw [stands]
      exact Option.some_ne_none _
    exact wellFormed.node?_above entry (List.prefix_append ..) (by simpa using last)

/-! ## Paths of one segment -/

theorem endsInSlash_of_isSegment {name : Bytes} (solid : IsSegment name) :
    Path.endsInSlash ⟨name⟩ = false := by
  simp only [Path.endsInSlash, decide_eq_false_iff_not]
  intro last
  exact solid.noSlash (List.mem_of_getLast? last)

theorem isAbsolute_of_isSegment {name : Bytes} (solid : IsSegment name) :
    Path.isAbsolute ⟨name⟩ = false := by
  simp only [Path.isAbsolute, decide_eq_false_iff_not]
  intro first
  exact solid.noSlash (List.mem_of_head? first)

theorem names_of_isSegment {name : Bytes} (solid : IsSegment name) :
    Path.names ⟨name⟩ = [name] := by
  rw [Path.names, Path.segments_of_not_mem solid.noSlash, List.filter_cons_of_pos,
    List.filter_nil]
  simpa using solid.nonempty

/-! ## The bytes of the path -/

/-- The path of a location is a slash and then its names, with slashes between them. -/
theorem bytes_pathOf (location : Location) :
    (pathOf location).bytes = slash :: joinSegments location := by
  cases location with
  | nil =>
      rfl
  | cons name others =>
      show (name :: others).flatMap (fun name => slash :: name) = _
      induction others generalizing name with
      | nil =>
          simp [joinSegments]
      | cons second later hypothesis =>
          rw [List.flatMap_cons, hypothesis second,
            Path.joinSegments_cons name (List.cons_ne_nil second later)]
          simp

@[simp]
theorem isAbsolute_pathOf (location : Location) : (pathOf location).isAbsolute = true := by
  simp [Path.isAbsolute, bytes_pathOf]

@[simp]
theorem bytes_pathOf_ne_nil (location : Location) : (pathOf location).bytes ≠ [] := by
  simp [bytes_pathOf]

theorem segments_pathOf {location : Location} (nonempty : location ≠ [])
    (pieces : ∀ name ∈ location, IsSegment name) :
    segments (pathOf location).bytes = [] :: location := by
  rw [bytes_pathOf, segments, if_pos rfl,
    Path.segments_joinSegments nonempty fun name member => (pieces name member).noSlash]

theorem names_pathOf {location : Location} (pieces : ∀ name ∈ location, IsSegment name) :
    (pathOf location).names = location := by
  by_cases root : location = []
  · subst root
    rfl
  · rw [Path.names, segments_pathOf root pieces, List.filter_cons_of_neg (by simp),
      List.filter_eq_self]
    intro name member
    simpa using (pieces name member).nonempty

/-- The path of anything but the root ends in a name and not in a slash. -/
theorem endsInSlash_pathOf {location : Location} {name : Name}
    (pieces : ∀ other ∈ location ++ [name], IsSegment other) :
    (pathOf (location ++ [name])).endsInSlash = false := by
  have solid : IsSegment name := pieces name (by simp)
  rcases List.eq_nil_or_concat name with empty | ⟨start, byte, shape⟩
  · exact absurd empty solid.nonempty
  have differs : byte ≠ slash := by
    intro same
    apply solid.noSlash
    rw [shape, same]
    simp
  have ending : ∃ before, (pathOf (location ++ [name])).bytes = before ++ [byte] := by
    rw [bytes_pathOf]
    by_cases root : location = []
    · exact ⟨slash :: start, by simp [root, joinSegments, shape]⟩
    · refine ⟨slash :: (joinSegments location ++ slash :: start), ?_⟩
      rw [Path.joinSegments_append root (by simp)]
      simp [joinSegments, shape]
  rcases ending with ⟨before, shape⟩
  simp [Path.endsInSlash, shape, differs]

/-- Segments that are written with slashes between them do not begin with a slash. -/
theorem isAbsolute_joinSegments {rest : Location} (pieces : ∀ name ∈ rest, IsSegment name) :
    Path.isAbsolute ⟨joinSegments rest⟩ = false := by
  rcases rest with - | ⟨first, others⟩
  · rfl
  · have solid : IsSegment first := pieces first (by simp)
    rcases first with - | ⟨byte, bytes⟩
    · exact absurd rfl solid.nonempty
    · have differs : byte ≠ slash := fun same => solid.noSlash (same ▸ List.mem_cons_self ..)
      by_cases single : others = []
      · simp [single, joinSegments, Path.isAbsolute, differs]
      · simp [Path.joinSegments_cons _ single, Path.isAbsolute, differs]

/-- Joining names to the path of a location spells the location further down. -/
theorem join_pathOf {location rest : Location} (more : rest ≠ [])
    (pieces : ∀ name ∈ location ++ rest, IsSegment name) :
    (pathOf location).join ⟨joinSegments rest⟩ = pathOf (location ++ rest) := by
  have relative : Path.isAbsolute ⟨joinSegments rest⟩ = false :=
    isAbsolute_joinSegments fun name member => pieces name (List.mem_append_right _ member)
  apply Path.ext
  rw [bytes_pathOf]
  rcases List.eq_nil_or_concat location with root | ⟨above, name, shape⟩
  · subst root
    have ends : Path.endsInSlash (pathOf []) = true := rfl
    simp [Path.join, relative, ends, bytes_pathOf, joinSegments]
  · have ends : (pathOf location).endsInSlash = false := by
      rw [shape, List.concat_eq_append]
      apply endsInSlash_pathOf
      intro other member
      apply pieces other
      rw [shape, List.concat_eq_append]
      exact List.mem_append_left _ member
    have nonempty : location ≠ [] := by simp [shape]
    rw [Path.joinSegments_append nonempty more]
    simp [Path.join, relative, ends, bytes_pathOf]

/-- Nothing is trimmed off the end of segments of which the last one stands for a component. -/
theorem trimSegments_concat (pieces : List Bytes) {last : Bytes} (solid : IsSegment last) :
    Path.trimSegments (pieces ++ [last]) = pieces ++ [last] := by
  have kept : ¬ (last = [] ∨ last = [Path.dot]) := by
    rintro (empty | self)
    · exact solid.nonempty empty
    · exact solid.neSelf self
  simp [Path.trimSegments, kept]

/-- The last segment is what the parent leaves out, where a component comes before it. -/
theorem parentSegments_concat {pieces : List Bytes} {piece last : Bytes}
    (ends : pieces.getLast? = some piece) (solid : IsSegment piece) (solidLast : IsSegment last) :
    Path.parentSegments (pieces ++ [last]) = pieces := by
  rcases List.getLast?_eq_some_iff.mp ends with ⟨before, rfl⟩
  rw [Path.parentSegments, trimSegments_concat _ solidLast, List.dropLast_concat,
    trimSegments_concat before solid]

/-- The parent of a path with a name after it is the path, if that ends in a name. -/
theorem parent?_append_slash {bytes segment last : Bytes}
    (ends : (segments bytes).getLast? = some segment) (solid : IsSegment segment)
    (solidLast : IsSegment last) : Path.parent? ⟨bytes ++ slash :: last⟩ = some ⟨bytes⟩ := by
  have after : ∀ start, segments (start ++ slash :: last) = segments start ++ [last] := by
    intro start
    rw [Path.segments_append_slash, Path.segments_of_not_mem solidLast.noSlash]
  cases bytes with
  | nil =>
      cases ends
      exact absurd rfl solid.nonempty
  | cons byte rest =>
      by_cases absolute : byte = slash
      · subst absolute
        have inner : (segments rest).getLast? = some segment := by
          have more := Path.segments_ne_nil rest
          rwa [segments, if_pos rfl, List.getLast?_cons_of_ne_nil more] at ends
        simp only [List.cons_append, Path.parent?, if_true, after,
          trimSegments_concat _ solidLast, parentSegments_concat inner solid solidLast,
          Path.joinSegments_segments]
        rw [if_neg (by simp)]
      · cases pieces : segments (byte :: rest) with
        | nil =>
            exact absurd pieces (Path.segments_ne_nil _)
        | cons first others =>
            have whole : joinSegments (first :: others) = byte :: rest := by
              rw [← pieces, Path.joinSegments_segments]
            have longer : segments (byte :: (rest ++ slash :: last)) =
                first :: (others ++ [last]) := by
              rw [← List.cons_append, after, pieces]
              rfl
            rw [pieces] at ends
            simp only [List.cons_append, Path.parent?, if_neg absolute, longer]
            split
            · next dotted =>
              subst dotted
              have more : others ≠ [] := by
                rintro rfl
                cases ends
                exact solid.neSelf rfl
              rw [List.getLast?_cons_of_ne_nil more] at ends
              simp only [trimSegments_concat others solidLast,
                parentSegments_concat ends solid solidLast, whole]
              rw [if_neg (by simp)]
            · have all := parentSegments_concat ends solid solidLast
              rw [List.cons_append] at all
              rw [all, whole]

/-! ## Resolution -/

/-- Whether the system takes the path of a location: no name and not the whole is too long. -/
structure Addressable (location : Location) : Prop where
  names : ∀ name ∈ location, IsName name
  short : (pathOf location).bytes.length < pathLimit

instance (location : Location) : Decidable (Addressable location) :=
  decidable_of_iff
    ((∀ name ∈ location, IsName name) ∧ (pathOf location).bytes.length < pathLimit)
    ⟨fun ⟨names, short⟩ => ⟨names, short⟩, fun ⟨names, short⟩ => ⟨names, short⟩⟩

theorem Addressable.isSegment {location : Location} (addressable : Addressable location) :
    ∀ name ∈ location, IsSegment name :=
  fun name member => (addressable.names name member).isSegment

theorem mem_joinSegments {byte : UInt8} (differs : byte ≠ slash) (pieces : List Bytes) :
    byte ∈ joinSegments pieces ↔ ∃ piece ∈ pieces, byte ∈ piece := by
  induction pieces with
  | nil =>
      simp [joinSegments]
  | cons piece others hypothesis =>
      by_cases last : others = []
      · simp [last, joinSegments]
      · simp [Path.joinSegments_cons piece last, hypothesis, differs]

/-- The path of a location holds a zero byte exactly where a name of it does. -/
theorem zero_mem_pathOf (location : Location) :
    (0 : UInt8) ∈ (pathOf location).bytes ↔ ∃ name ∈ location, (0 : UInt8) ∈ name := by
  have differs : (0 : UInt8) ≠ slash := by decide
  simp [bytes_pathOf, differs, mem_joinSegments]

theorem Addressable.zero_not_mem {location : Location} (addressable : Addressable location) :
    (0 : UInt8) ∉ (pathOf location).bytes := by
  intro member
  rcases (zero_mem_pathOf location).mp member with ⟨name, inside, zero⟩
  exact (addressable.names name inside).no_zero zero

theorem start_pathOf (system : FileSystem) {location : Location}
    (short : (pathOf location).bytes.length < pathLimit) :
    system.start (pathOf location) = .ok (.live []) := by
  have fits : ¬ pathLimit ≤ (pathOf location).bytes.length := Nat.not_le_of_lt short
  simp [start, fits]

/-- Names that lead through directories alone are followed to where they lead. -/
theorem descend_directories {system : FileSystem} (wellFormed : system.WellFormed)
    {purpose : Purpose} {following : Following} {here names rest : Location}
    (stands : system.node? (here ++ names) = some .directory) :
    descend system purpose following (.live here) (names ++ rest) false =
      descend system purpose following (.live (here ++ names)) rest false := by
  induction names generalizing here with
  | nil =>
      rw [List.nil_append, List.append_nil]
  | cons name others hypothesis =>
      have later : system.node? ((here ++ [name]) ++ others) = some .directory := by
        simpa using stands
      have entry : system.node? (here ++ [name]) = some .directory :=
        wellFormed.directory_above later
      have isName : IsName name := (wellFormed.placed here name (by simp [entry])).2
      rw [List.cons_append, descend_inside isName.enters entry, hypothesis later]
      simp

theorem resolveFrom_directories {system : FileSystem} (wellFormed : system.WellFormed)
    (purpose : Purpose) (links : Nat) {here names rest : Location}
    (stands : system.node? (here ++ names) = some .directory) :
    resolveFrom system purpose links (.live here) (names ++ rest) false =
      resolveFrom system purpose links (.live (here ++ names)) rest false := by
  cases links <;> exact descend_directories wellFormed stands

theorem resolveFrom_root {system : FileSystem} (wellFormed : system.WellFormed)
    (purpose : Purpose) (links : Nat) {directory : Location} (rest : List Name)
    (stands : system.node? directory = some .directory) :
    resolveFrom system purpose links (.live []) (directory ++ rest) false =
      resolveFrom system purpose links (.live directory) rest false := by
  have below : system.node? ([] ++ directory) = some .directory := stands
  exact resolveFrom_directories wellFormed purpose links below

/-- The path of an entry of a directory is resolved from the directory. -/
theorem resolve_pathOf {system : FileSystem} (wellFormed : system.WellFormed)
    (purpose : Purpose) {directory : Location} {name : Name}
    (stands : system.node? directory = some .directory)
    (addressable : Addressable (directory ++ [name])) {spot : Spot}
    (ends : resolveFrom system purpose linkLimit (.live directory) [name] false = .ok spot) :
    system.resolve purpose (pathOf (directory ++ [name])) = .ok spot := by
  have walked := resolveFrom_root wellFormed purpose linkLimit [name] stands
  rw [resolve, if_neg addressable.zero_not_mem, start_pathOf system addressable.short,
    names_pathOf addressable.isSegment, endsInSlash_pathOf addressable.isSegment]
  simp only [walked, ends]

/-- The path of a name that a directory does not hold leads to that name. -/
theorem resolve_vacant {system : FileSystem} (wellFormed : system.WellFormed)
    (purpose : Purpose) {directory : Location} {name : Name}
    (stands : system.node? directory = some .directory)
    (vacant : system.node? (directory ++ [name]) = none)
    (addressable : Addressable (directory ++ [name])) :
    system.resolve purpose (pathOf (directory ++ [name])) = .ok (.vacant directory name) := by
  have isName : IsName name := addressable.names name (by simp)
  apply resolve_pathOf wellFormed purpose stands addressable
  exact descend_of_descends (.missing isName.enters vacant)

/-- The path of a node leads to the node, unless that is a link that is to be followed. -/
theorem resolve_occupied {system : FileSystem} (wellFormed : system.WellFormed)
    (purpose : Purpose) {directory : Location} {name : Name} {node : Node}
    (stands : system.node? (directory ++ [name]) = some node)
    (kept : purpose = .entry ∨ ∀ target, node ≠ .link target)
    (addressable : Addressable (directory ++ [name])) :
    system.resolve purpose (pathOf (directory ++ [name])) =
      .ok (.occupied (.live (directory ++ [name]))) := by
  have isName : IsName name := addressable.names name (by simp)
  have above := (wellFormed.placed directory name (by simp [stands])).1
  apply resolve_pathOf wellFormed purpose above addressable
  apply descend_of_descends
  cases node with
  | directory =>
      exact .inside isName.enters stands .done
  | link target =>
      have entry : purpose = .entry := kept.resolve_right fun other => other target rfl
      exact .kept isName.enters stands entry
  | file _ | special _ =>
      exact .leaf isName.enters stands (by simp) (by simp) (.inr rfl)

/-- Why a path is refused whatever is to be done there: a byte of it is zero, or it is too long. -/
def refusalOf (path : Path) : Fault :=
  if (0 : UInt8) ∈ path.bytes then .zeroByte else .refused .nameTooLong

@[simp]
theorem refusalOf_ne_notFound (path : Path) : refusalOf path ≠ .refused .notFound := by
  rw [refusalOf]
  split <;> simp

/-- Where a path is too long for the system or can not be put to it, every resolution fails. -/
theorem resolve_of_not_addressable {system : FileSystem} (wellFormed : system.WellFormed)
    {directory : Location} {name : Name}
    (stands : system.node? directory = some .directory) (solid : IsSegment name)
    (refused : ¬ Addressable (directory ++ [name])) (purpose : Purpose) :
    system.resolve purpose (pathOf (directory ++ [name])) =
      .error (refusalOf (pathOf (directory ++ [name]))) := by
  have before : ∀ other ∈ directory, IsName other :=
    wellFormed.isName_of_mem (by simp [stands])
  by_cases zero : (0 : UInt8) ∈ (pathOf (directory ++ [name])).bytes
  · rw [resolve, if_pos zero, refusalOf, if_pos zero]
  · rw [resolve, if_neg zero, refusalOf, if_neg zero]
    by_cases short : (pathOf (directory ++ [name])).bytes.length < pathLimit
    · have pieces := wellFormed.isSegment_append stands solid
      have long : nameLimit < name.length := by
        refine Nat.lt_of_not_le fun fits => refused ⟨?_, short⟩
        intro other member
        rcases List.mem_append.mp member with early | last
        · exact before other early
        · rw [List.mem_singleton] at last
          subst last
          exact ⟨solid.nonempty, solid.noSlash,
            fun inside => zero ((zero_mem_pathOf _).mpr ⟨other, member, inside⟩),
            solid.neSelf, solid.neParent, fits⟩
      have walked := resolveFrom_root wellFormed purpose linkLimit [name] stands
      rw [start_pathOf system short, names_pathOf pieces, endsInSlash_pathOf pieces]
      simp only [walked]
      simp [resolveFrom, linkLimit, descend, solid.neSelf, solid.neParent, long]
    · simp [start, Nat.le_of_not_lt short]

/-- Every directory on the way to an addressable location is addressable. -/
theorem Addressable.above {location rest : Location}
    (addressable : Addressable (location ++ rest)) :
    Addressable location := by
  refine ⟨fun name member => addressable.names name (List.mem_append_left _ member), ?_⟩
  refine Nat.lt_of_le_of_lt ?_ addressable.short
  rw [bytes_pathOf, bytes_pathOf]
  by_cases root : location = []
  · simp [root, joinSegments]
  · by_cases last : rest = []
    · simp [last]
    · rw [Path.joinSegments_append root last]
      simp

/-- Beside an addressable location a shorter name is addressable as well. -/
theorem Addressable.of_shorter {location : Location} {name other : Name}
    (addressable : Addressable (location ++ [name])) (isName : IsName other)
    (shorter : other.length ≤ name.length) : Addressable (location ++ [other]) := by
  refine ⟨?_, Nat.lt_of_le_of_lt ?_ addressable.short⟩
  · intro inner member
    rcases List.mem_append.mp member with early | last
    · exact addressable.names inner (List.mem_append_left _ early)
    · exact List.mem_singleton.mp last ▸ isName
  · rw [bytes_pathOf, bytes_pathOf]
    by_cases root : location = []
    · simpa [root, joinSegments] using shorter
    · rw [Path.joinSegments_append root (by simp), Path.joinSegments_append root (by simp)]
      simpa [joinSegments] using shorter

/-- A path that is not that of a link leads to its location, if anywhere. -/
theorem place_of_resolve_pathOf {system : FileSystem} (wellFormed : system.WellFormed)
    {purpose : Purpose} {directory : Location} {name : Name}
    (stands : system.node? directory = some .directory) (solid : IsSegment name)
    (noLink : ∀ target, system.node? (directory ++ [name]) ≠ some (.link target)) {spot : Spot}
    (ends : system.resolve purpose (pathOf (directory ++ [name])) = .ok spot) :
    spot.place = .live (directory ++ [name]) := by
  by_cases addressable : Addressable (directory ++ [name])
  · cases found : system.node? (directory ++ [name]) with
    | none =>
        rw [resolve_vacant wellFormed purpose stands found addressable] at ends
        cases ends
        rfl
    | some node =>
        have kept : ∀ target, node ≠ .link target := by
          rintro target rfl
          exact noLink target found
        rw [resolve_occupied wellFormed purpose found (.inr kept) addressable] at ends
        cases ends
        rfl
  · rw [resolve_of_not_addressable wellFormed stands solid addressable] at ends
    cases ends

/-- Of a last name that is not that of a link nothing but its own entry is looked up. -/
theorem eq_of_mem_lookups {system : FileSystem} {purpose : Purpose} {tracing : Tracing}
    {here entry : Location} {name : Name} {slash : Bool}
    (noLink : ∀ target, system.node? (here ++ [name]) ≠ some (.link target))
    (member : entry ∈ lookups system purpose tracing (.live here) [name] slash) :
    entry = here ++ [name] := by
  simp only [lookups] at member
  split at member
  · cases member
  split at member
  · cases member
  split at member
  · cases member
  rcases List.mem_cons.mp member with own | later
  · exact own
  · split at later
    · cases later
    · next target found =>
      exact absurd found (noLink target)
    · cases later

theorem lookups_directories {system : FileSystem} (wellFormed : system.WellFormed)
    {purpose : Purpose} {tracing : Tracing} {here names : Location} {name : Name}
    (stands : system.node? (here ++ names) = some .directory)
    (noLink : ∀ target, system.node? (here ++ names ++ [name]) ≠ some (.link target)) :
    ∀ entry ∈ lookups system purpose tracing (.live here) (names ++ [name]) false,
      entry <+: here ++ names ++ [name] := by
  induction names generalizing here with
  | nil =>
      intro entry member
      rw [List.append_nil] at noLink ⊢
      have own := eq_of_mem_lookups noLink member
      subst own
      exact List.prefix_rfl
  | cons first others hypothesis =>
      have below : system.node? ((here ++ [first]) ++ others) = some .directory := by
        simpa using stands
      have inner : ∀ target,
          system.node? ((here ++ [first]) ++ others ++ [name]) ≠ some (.link target) := by
        simpa using noLink
      have entered : system.node? (here ++ [first]) = some .directory :=
        wellFormed.directory_above below
      have isName : IsName first := (wellFormed.placed here first (by simp [entered])).2
      intro entry member
      rw [List.cons_append, lookups_inside isName.enters entered] at member
      rcases List.mem_cons.mp member with rfl | later
      · exact ⟨others ++ [name], by simp⟩
      · simpa using hypothesis below inner entry later

theorem lookups_root {system : FileSystem} (wellFormed : system.WellFormed)
    {purpose : Purpose} {tracing : Tracing} {directory : Location} {name : Name}
    (stands : system.node? directory = some .directory)
    (noLink : ∀ target, system.node? (directory ++ [name]) ≠ some (.link target)) :
    ∀ entry ∈ lookups system purpose tracing (.live []) (directory ++ [name]) false,
      entry <+: directory ++ [name] := by
  have below : system.node? ([] ++ directory) = some .directory := stands
  exact lookups_directories wellFormed below noLink

/-- A path that is not that of a link passes through the locations above its own only. -/
theorem prefix_of_mem_lookedUp {system : FileSystem} (wellFormed : system.WellFormed)
    {purpose : Purpose} {directory : Location} {name : Name}
    (stands : system.node? directory = some .directory) (solid : IsSegment name)
    (noLink : ∀ target, system.node? (directory ++ [name]) ≠ some (.link target)) :
    ∀ entry ∈ system.lookedUp purpose (pathOf (directory ++ [name])),
      entry <+: directory ++ [name] := by
  intro entry member
  have pieces := wellFormed.isSegment_append stands solid
  rw [lookedUp] at member
  split at member
  · cases member
  next here begins =>
  have root : here = .live [] := by
    simp only [start, bytes_pathOf_ne_nil, if_false, isAbsolute_pathOf, if_true] at begins
    split at begins <;> cases begins
    rfl
  rw [root, names_pathOf pieces, endsInSlash_pathOf pieces, linkLimit, lookupsFrom] at member
  exact lookups_root wellFormed stands noLink entry member

end BundlePacker.FileSystem
