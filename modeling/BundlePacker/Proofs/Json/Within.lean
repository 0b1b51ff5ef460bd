import BundlePacker.Proofs.Json.Forms

/-!
# Values inside other values

A value may stand at many places: as an element of a list, under a name of a map, or as a field of a
record in either form, and all of these may be nested.  What stands before it has been read when it
is come to, and what the reader does with it depends on nothing but what it is taken for.

The main statement says so of a value at any place.  If two texts are taken for the same by the
inner reader, then they are by the outer one, and a fault in the value is a fault of the whole.
-/

namespace BundlePacker.Json

/-- Whether a text begins with a quote or with an opening bracket. -/
def Opens (input : Bytes) : Prop :=
  ∃ byte rest, input = byte :: rest ∧ (byte = quote ∨ byte = openSquare ∨ byte = openCurly)

theorem Opens.skipSpace {input : Bytes} (opens : Opens input) :
    ∃ byte rest, skipSpace input = byte :: rest ∧ byte :: rest = input ∧ byte ≠ closeSquare := by
  rcases opens with ⟨byte, rest, rfl, bracket⟩
  refine ⟨byte, rest, ?_, rfl, ?_⟩
  · rcases bracket with rfl | rfl | rfl <;>
      exact skipSpace_append_cons allSpace_nil (by decide) rest
  · rcases bracket with rfl | rfl | rfl <;> decide

/--
Where the text of one reader's value may stand in that of another's.  The bytes are those between
the beginning of the outer value and that of the inner one.
-/
inductive Within {α : Type} (inner : Reader α) : {β : Type} → Reader β → Bytes → Prop
  /-- The value is the whole. -/
  | whole :
      Within inner inner []
  | map {β γ : Type} {outer : Reader β} {front : Bytes} (inside : Within inner outer front)
      (transform : β → γ) :
      Within inner (outer.map transform) front
  /-- The value is in an element of a list. -/
  | element {β : Type} {element : Reader β} {front : Bytes} (inside : Within inner element front)
      {earlier : List Item}
      (taken : ∀ item ∈ earlier, ∃ value, element.TakesElement item.value value)
      (gap lead : Blanks) :
      Within inner (list element)
        (openSquare ::
          (gap.bytes ++ commaSeparated (earlier.map Item.bytes ++ [lead.bytes ++ front])))
  /-- The value is in a member of an object that stands for a map. -/
  | entry {β : Type} {value : Reader β} {front : Bytes} (inside : Within inner value front)
      {earlier : List (String × Member)} {gathered : Std.ExtTreeMap String β}
      (takesUp : TakesUp
        (fun _ name => .ok (value.map fun found gathered => gathered.insert name found)) ∅
        earlier gathered)
      {member : Member} {name : String} (spells : Spells member.spelling name.toList)
      (gap : Blanks) :
      Within inner (Json.map value)
        (openCurly ::
          (gap.bytes ++ commaSeparated (earlier.map (fun pair => pair.2.bytes) ++
            [member.lead ++ front])))
  /-- The value is in a member of an object that stands for a record. -/
  | member {σ β : Type} {record : Record σ β} {value : Reader (σ → σ)} {front : Bytes}
      (inside : Within inner value front) {earlier : List (String × Member)} {draft : σ}
      (takesUp : TakesUp record.gather record.blank earlier draft) {member : Member} {name : String}
      (spells : Spells member.spelling name.toList) (chosen : record.gather draft name = .ok value)
      (gap : Blanks) :
      Within inner record.reader
        (openCurly ::
          (gap.bytes ++ commaSeparated (earlier.map (fun pair => pair.2.bytes) ++
            [member.lead ++ front])))
  /-- The value is in an element of a list that stands for a record. -/
  | field {σ β : Type} {record : Record σ β} {field : Field σ} {front : Bytes}
      (inside : Within inner field.value front) {before after : List (Field σ)}
      (split : record.fields = before ++ field :: after) {earlier : List Item} {draft : σ}
      (takesIn : TakesIn record.blank before earlier draft) (gap lead : Blanks) :
      Within inner record.reader
        (openSquare ::
          (gap.bytes ++ commaSeparated (earlier.map Item.bytes ++ [lead.bytes ++ front])))

theorem Within.opens {α β : Type} {inner : Reader α} {outer : Reader β} {front : Bytes}
    (within : Within inner outer front) {input : Bytes} (opens : Opens input) :
    Opens (front ++ input) := by
  induction within with
  | whole => exact opens
  | map inside transform hypothesis => exact hypothesis
  | element => exact ⟨openSquare, _, rfl, .inr (.inl rfl)⟩
  | entry => exact ⟨openCurly, _, rfl, .inr (.inr rfl)⟩
  | member => exact ⟨openCurly, _, rfl, .inr (.inr rfl)⟩
  | field => exact ⟨openSquare, _, rfl, .inr (.inl rfl)⟩

/-! ## Reading up to a place -/

/-- What stands between earlier items and a further one. -/
def separator {ι : Type} (earlier : List ι) : Bytes :=
  if earlier.isEmpty then [] else [comma]

theorem commaSeparated_singleton (text : Bytes) : commaSeparated ([] ++ [text]) = text := by
  simp [commaSeparated]

theorem commaSeparated_concat (earlier : List Bytes) (last : Bytes) :
    commaSeparated (earlier ++ [last]) = commaSeparated earlier ++ (separator earlier ++ last) := by
  cases earlier with
  | nil => simp [commaSeparated, separator]
  | cons first others => simp [commaSeparated_cons, separator]

theorem separates_separator {ι : Type} (earlier : List ι) {blanks : Bytes}
    (space : AllSpace blanks) : Separates earlier.isEmpty (blanks ++ separator earlier) := by
  cases earlier with
  | nil =>
      rw [separator, List.isEmpty_nil, if_pos rfl, List.append_nil]
      exact .first space
  | cons first others => exact .later space allSpace_nil

theorem isBoundary_separator {ι : Type} (earlier : List ι) (rest : Bytes) :
    earlier = [] ∨ IsBoundary (separator earlier ++ rest) := by
  cases earlier with
  | nil => exact .inl rfl
  | cons first others => exact .inr (isBoundary_cons (.inl rfl) rest)

theorem commaSeparated_concat_append (earlier : List Bytes) (last rest : Bytes) :
    commaSeparated (earlier ++ [last]) ++ rest = commaSeparated (earlier ++ [last ++ rest]) := by
  simp only [commaSeparated_concat, List.append_assoc]

section

variable {α : Type} {element : Reader α} {earlier : List Item}
  (taken : ∀ item ∈ earlier, ∃ value, element.TakesElement item.value value)

include taken

/-- Elements after the first one of a list are read, and reading goes on behind them. -/
theorem exists_readElements_later :
    ∃ values : List α, ∀ {blanks tail : Bytes}, AllSpace blanks → IsBoundary tail →
      ∃ left, AllSpace left ∧
        readElements element false (blanks ++ (laterItems earlier ++ tail)) =
          (readElements element false (left ++ tail)).map fun result =>
            (values ++ result.1, result.2) := by
  induction earlier with
  | nil =>
      refine ⟨[], fun {blanks tail} space boundary => ⟨blanks, space, ?_⟩⟩
      rw [laterItems, List.flatMap_nil, List.nil_append]
      cases readElements element false (blanks ++ tail) <;> rfl
  | cons item others hypothesis =>
      rcases List.forall_mem_cons.mp taken with ⟨⟨value, takes⟩, laterTaken⟩
      rcases hypothesis laterTaken with ⟨values, later⟩
      refine ⟨value :: values, fun {blanks tail} space boundary => ?_⟩
      rcases takes.exists_element (.later space allSpace_nil)
        (isBoundary_laterItems others boundary) with ⟨start, between, betweenSpace, turned, found⟩
      rcases later betweenSpace boundary with ⟨left, leftSpace, same⟩
      refine ⟨left, leftSpace, ?_⟩
      rw [List.append_assoc, List.cons_append, List.nil_append] at turned
      rw [laterItems_cons, readElements_eq]
      simp only [turned, found, same]
      cases readElements element false (left ++ tail) <;> rfl

/-- Reading a list goes on with the next element behind those that have been read. -/
theorem exists_readElements_next (gap : Blanks) :
    ∃ values : List α, ∀ next : Bytes, ∃ lead, Separates earlier.isEmpty lead ∧
      readElements element true
          (gap.bytes ++ commaSeparated (earlier.map Item.bytes ++ [next])) =
        (readElements element earlier.isEmpty (lead ++ next)).map
          fun result => (values ++ result.1, result.2) := by
  cases earlier with
  | nil =>
      refine ⟨[], fun next => ⟨gap.bytes, .first gap.space, ?_⟩⟩
      rw [List.map_nil, commaSeparated_singleton, List.isEmpty_nil]
      cases readElements element true (gap.bytes ++ next) <;> rfl
  | cons item others =>
      rcases List.forall_mem_cons.mp taken with ⟨⟨value, takes⟩, laterTaken⟩
      rcases exists_readElements_later laterTaken with ⟨values, later⟩
      refine ⟨value :: values, fun next => ?_⟩
      have boundary : IsBoundary (comma :: next) := isBoundary_cons (.inl rfl) next
      rcases takes.exists_element (.first gap.space) (isBoundary_laterItems others boundary)
        with ⟨start, between, betweenSpace, turned, found⟩
      rcases later betweenSpace boundary with ⟨left, leftSpace, same⟩
      refine ⟨left ++ comma :: [], .later leftSpace allSpace_nil, ?_⟩
      rw [commaSeparated_concat, separator, List.map_cons, List.isEmpty_cons, ← List.map_cons,
        commaSeparated_items, readElements_eq]
      simp only [Bool.false_eq_true, if_false, List.singleton_append, turned, found, same,
        List.append_assoc, List.isEmpty_cons]
      cases readElements element false (left ++ comma :: next) <;> rfl

end

/-- Reading the members of an object goes on with the next one behind those that are taken up. -/
theorem exists_readMembers_next {σ : Type} {gather : Gathering σ} {gathered last : σ}
    {earlier : List (String × Member)} (takesUp : TakesUp gather gathered earlier last)
    (gap : Blanks) (next : Bytes) :
    ∃ lead, Separates earlier.isEmpty lead ∧
      readMembers gather true gathered
          (gap.bytes ++ commaSeparated (earlier.map (fun pair => pair.2.bytes) ++ [next])) =
        readMembers gather earlier.isEmpty last (lead ++ next) := by
  cases takesUp with
  | nil =>
      refine ⟨gap.bytes, .first gap.space, ?_⟩
      rw [List.map_nil, commaSeparated_singleton, List.isEmpty_nil]
  | @cons _ _ name member others reader update spells chosen takes later =>
      have boundary : IsBoundary (comma :: next) := isBoundary_cons (.inl rfl) next
      rcases readMember_of_takes spells chosen takes (isBoundary_laterMembers others boundary)
        with ⟨between, betweenSpace, found⟩
      rcases readMembers_later later betweenSpace boundary with ⟨left, leftSpace, same⟩
      refine ⟨left ++ comma :: [], .later leftSpace allSpace_nil, ?_⟩
      have shape : commaSeparated
          (((name, member) :: others).map (fun pair => pair.2.bytes) ++ [next]) =
          member.beforeName.bytes ++
            quote :: (member.fromName ++ (laterMembers others ++ comma :: next)) := by
        simp [commaSeparated_cons, laterMembers, Member.bytes, Member.fromName, List.flatMap_map]
      rw [shape, ← List.append_assoc, readMembers_eq,
        nextName_first (gap.space.append member.beforeName.space)]
      simp only [found, same, List.isEmpty_cons, List.append_assoc, List.singleton_append]

/-- Reading fields goes on with the next element behind those that are taken up. -/
theorem exists_readFields_next {σ α : Type} (record : Record σ α) {draft last : σ}
    {fields : List (Field σ)} {earlier : List Item} (takesIn : TakesIn draft fields earlier last)
    (others : List (Field σ)) (gap : Blanks) (next : Bytes) :
    ∃ lead, Separates (earlier.length = 0) lead ∧
      record.readFields (fields ++ others) 0 draft
          (gap.bytes ++ commaSeparated (earlier.map Item.bytes ++ [next])) =
        record.readFields others earlier.length last (lead ++ next) := by
  have isFirst : decide (earlier.length = 0) = (earlier.map Item.bytes).isEmpty := by
    cases earlier <;> rfl
  have boundary := isBoundary_separator (earlier.map Item.bytes) next
  rw [List.map_eq_nil_iff] at boundary
  rcases Record.readFields_items record takesIn others gap boundary
    with ⟨left, space, same⟩
  refine ⟨left ++ separator (earlier.map Item.bytes), ?_, ?_⟩
  · rw [isFirst]
    exact separates_separator _ space
  · rw [commaSeparated_concat, same, List.append_assoc]

/-! ## Reading a value at its place -/

/--
Whether one reader comes to the value of another behind given bytes, and then goes on with what the
value is taken for.
-/
def Reaches {α β : Type} (inner : Reader α) (outer : Reader β) (front : Bytes) : Prop :=
  ∃ goOn : α × Bytes → Outcome β, ∀ blanks, AllSpace blanks → ∀ input, Opens input →
    outer.run (blanks ++ (front ++ input)) = (inner.run input).bind goOn

namespace Reaches

variable {α β γ : Type} {inner : Reader α} {front : Bytes}

theorem map {outer : Reader β} (reaches : Reaches inner outer front) (transform : β → γ) :
    Reaches inner (outer.map transform) front := by
  rcases reaches with ⟨goOn, found⟩
  refine ⟨fun result => (goOn result).map fun left => (transform left.1, left.2),
    fun blanks space input opens => ?_⟩
  simp only [Reader.map, found blanks space input opens]
  cases inner.run input with
  | error fault => rfl
  | ok result =>
      simp only [Except.bind]
      cases goOn result <;> rfl

/-- A member is read up to the value in it. -/
theorem readMember {σ : Type} {value : Reader (σ → σ)} (reaches : Reaches inner value front)
    {gather : Gathering σ} {gathered : σ} {member : Member} {name : String}
    (spells : Spells member.spelling name.toList) (chosen : gather gathered name = .ok value) :
    ∃ goOn : α × Bytes → Outcome σ, ∀ input, Opens input →
      Json.readMember gather gathered
          (member.spelling ++ quote :: (member.afterName.bytes ++
            colon :: (member.before.bytes ++ (front ++ input)))) =
        (inner.run input).bind goOn := by
  rcases reaches with ⟨goOn, found⟩
  refine ⟨fun result => (goOn result).map fun left => (left.1 gathered, left.2),
    fun input opens => ?_⟩
  have token : isSpace colon = false := by decide
  simp only [Json.readMember, content_run_of_spells spells, chosen, skipColon,
    skipSpace_append_cons member.afterName.space token, if_true,
    found member.before.bytes member.before.space input opens]
  cases inner.run input with
  | error fault => rfl
  | ok result =>
      simp only [Except.bind]
      cases goOn result <;> rfl

/-- An object is read up to the value in one of its members. -/
theorem readMembers {σ : Type} {value : Reader (σ → σ)} (reaches : Reaches inner value front)
    {gather : Gathering σ} {gathered last : σ} {earlier : List (String × Member)}
    (takesUp : TakesUp gather gathered earlier last) {member : Member} {name : String}
    (spells : Spells member.spelling name.toList) (chosen : gather last name = .ok value)
    (gap : Blanks) :
    ∃ goOn : α × Bytes → Outcome σ, ∀ input, Opens input →
      Json.readMembers gather true gathered
          (gap.bytes ++ (commaSeparated (earlier.map (fun pair => pair.2.bytes) ++
            [member.lead ++ front]) ++ input)) =
        (inner.run input).bind goOn := by
  rcases reaches.readMember spells chosen with ⟨goOn, found⟩
  refine ⟨fun result => (goOn result).bind fun left =>
    Json.readMembers gather false left.1 left.2, fun input opens => ?_⟩
  rcases exists_readMembers_next takesUp gap (member.lead ++ front ++ input)
    with ⟨lead, separates, same⟩
  have shape : lead ++ (member.lead ++ front ++ input) =
      (lead ++ member.beforeName.bytes) ++ quote :: (member.spelling ++ quote ::
        (member.afterName.bytes ++ colon :: (member.before.bytes ++ (front ++ input)))) := by
    simp [Member.lead]
  rw [commaSeparated_concat_append, same, shape, readMembers_eq,
    nextName_of_separates (separates.append member.beforeName.space)]
  simp only [found input opens]
  cases inner.run input with
  | error fault => rfl
  | ok result =>
      simp only [Except.bind]
      cases goOn result <;> rfl

/-- A list is read up to the value in one of its elements. -/
theorem element {element : Reader β} (reaches : Reaches inner element front)
    (begins : ∀ input, Opens input → Opens (front ++ input)) {earlier : List Item}
    (taken : ∀ item ∈ earlier, ∃ value, element.TakesElement item.value value)
    (gap lead : Blanks) :
    Reaches inner (list element)
      (openSquare ::
        (gap.bytes ++ commaSeparated (earlier.map Item.bytes ++ [lead.bytes ++ front]))) := by
  rcases reaches with ⟨goOn, found⟩
  rcases exists_readElements_next taken gap with ⟨values, same⟩
  refine ⟨fun result => (goOn result).bind fun left =>
    (readElements element false left.2).map fun last => (values ++ left.1 :: last.1, last.2),
    fun blanks space input opens => ?_⟩
  have token : isSpace openSquare = false := by decide
  rcases same (lead.bytes ++ front ++ input) with ⟨separator, separates, next⟩
  rcases (begins input opens).skipSpace with ⟨byte, start, shown, shape, proper⟩
  have turned := nextElement_of_separates (separates.append lead.space) shown proper
  have inside := found [] allSpace_nil input opens
  rw [shape, List.append_assoc] at turned
  rw [List.nil_append] at inside
  simp only [list, List.cons_append, skipSpace_append_cons space token, if_true, List.append_assoc,
    commaSeparated_concat_append]
  rw [← List.append_assoc lead.bytes front input, next, readElements_eq, List.append_assoc]
  simp only [turned, inside]
  cases inner.run input with
  | error fault => rfl
  | ok result =>
      simp only [Except.bind]
      cases goOn result with
      | error fault => rfl
      | ok left =>
          simp only
          cases readElements element false left.2 <;> rfl

/-- A map is read up to the value under one of its names. -/
theorem entry {value : Reader β} (reaches : Reaches inner value front)
    {earlier : List (String × Member)} {gathered : Std.ExtTreeMap String β}
    (takesUp : TakesUp
      (fun _ name => .ok (value.map fun found gathered => gathered.insert name found)) ∅
      earlier gathered)
    {member : Member} {name : String} (spells : Spells member.spelling name.toList) (gap : Blanks) :
    Reaches inner (Json.map value)
      (openCurly ::
        (gap.bytes ++ commaSeparated (earlier.map (fun pair => pair.2.bytes) ++
          [member.lead ++ front]))) := by
  rcases (reaches.map fun found gathered => gathered.insert name found).readMembers takesUp spells
    rfl gap with ⟨goOn, found⟩
  have token : isSpace openCurly = false := by decide
  refine ⟨goOn, fun blanks space input opens => ?_⟩
  simp only [Json.map, List.cons_append, skipSpace_append_cons space token, if_true,
    List.append_assoc, found input opens]

/-- A record is read up to the value under one of the names in its object. -/
theorem member {σ : Type} {record : Record σ β} {value : Reader (σ → σ)}
    (reaches : Reaches inner value front) {earlier : List (String × Member)} {draft : σ}
    (takesUp : TakesUp record.gather record.blank earlier draft) {member : Member} {name : String}
    (spells : Spells member.spelling name.toList) (chosen : record.gather draft name = .ok value)
    (gap : Blanks) :
    Reaches inner record.reader
      (openCurly ::
        (gap.bytes ++ commaSeparated (earlier.map (fun pair => pair.2.bytes) ++
          [member.lead ++ front]))) := by
  rcases reaches.readMembers takesUp spells chosen gap with ⟨goOn, found⟩
  have token : isSpace openCurly = false := by decide
  refine ⟨fun result => (goOn result).bind fun left => record.finishWith left.1 left.2,
    fun blanks space input opens => ?_⟩
  simp only [Record.reader, List.cons_append, skipSpace_append_cons space token, if_true,
    List.append_assoc, Record.readObject, found input opens]
  cases inner.run input with
  | error fault => rfl
  | ok result =>
      simp only [Except.bind]
      cases goOn result <;> rfl

/-- A record is read up to the value in one of the elements of its list. -/
theorem field {σ : Type} {record : Record σ β} {field : Field σ}
    (reaches : Reaches inner field.value front)
    (begins : ∀ input, Opens input → Opens (front ++ input)) {before after : List (Field σ)}
    (split : record.fields = before ++ field :: after) {earlier : List Item} {draft : σ}
    (takesIn : TakesIn record.blank before earlier draft) (gap lead : Blanks) :
    Reaches inner record.reader
      (openSquare ::
        (gap.bytes ++ commaSeparated (earlier.map Item.bytes ++ [lead.bytes ++ front]))) := by
  rcases reaches with ⟨goOn, found⟩
  refine ⟨fun result => (goOn result).bind fun left =>
    (record.readFields after (earlier.length + 1) (left.1 draft) left.2).bind fun last =>
      record.finishWith last.1 last.2, fun blanks space input opens => ?_⟩
  have token : isSpace openSquare = false := by decide
  have differs : openSquare ≠ openCurly := by decide
  rcases exists_readFields_next record takesIn (field :: after) gap
    (lead.bytes ++ front ++ input) with ⟨separator, separates, next⟩
  rcases (begins input opens).skipSpace with ⟨byte, start, shown, shape, proper⟩
  have turned := nextElement_of_separates (separates.append lead.space) shown proper
  have inside := found [] allSpace_nil input opens
  rw [shape, List.append_assoc] at turned
  rw [List.nil_append] at inside
  rw [← split, List.append_assoc] at next
  simp only [Record.reader, List.cons_append, skipSpace_append_cons space token, if_neg differs,
    if_true, List.append_assoc, commaSeparated_concat_append, Record.readList, next,
    Record.readFields, turned, inside]
  cases inner.run input with
  | error fault => rfl
  | ok result =>
      simp only [Except.bind]
      cases goOn result with
      | error fault => rfl
      | ok left =>
          simp only
          cases record.readFields after (earlier.length + 1) (left.1 draft) left.2 <;> rfl

end Reaches

section

variable {α β : Type} {inner : Reader α} {outer : Reader β} {front : Bytes}

/-- Where a value may stand, it is come to. -/
theorem Within.reaches (within : Within inner outer front)
    (skips : ∀ {blanks : Bytes}, AllSpace blanks → ∀ input,
      inner.run (blanks ++ input) = inner.run input) : Reaches inner outer front := by
  induction within with
  | whole =>
      refine ⟨.ok, fun blanks space input opens => ?_⟩
      rw [List.nil_append, skips space]
      cases inner.run input <;> rfl
  | map inside transform hypothesis => exact hypothesis.map transform
  | element inside taken gap lead hypothesis =>
      exact hypothesis.element (fun _ => inside.opens) taken gap lead
  | entry inside takesUp spells gap hypothesis => exact hypothesis.entry takesUp spells gap
  | member inside takesUp spells chosen gap hypothesis =>
      exact hypothesis.member takesUp spells chosen gap
  | field inside split takesIn gap lead hypothesis =>
      exact hypothesis.field (fun _ => inside.opens) split takesIn gap lead

/-- Texts that the inner reader takes for the same are the same to the outer one. -/
theorem Within.readAll_congr (within : Within inner outer front) (framed : inner.IsFramed)
    {first second : Bytes} (firstOpens : Opens first) (secondOpens : Opens second)
    (same : inner.run first = inner.run second) (before : Blanks) :
    outer.readAll (before.bytes ++ (front ++ first)) =
      outer.readAll (before.bytes ++ (front ++ second)) := by
  rcases within.reaches framed.skips with ⟨goOn, found⟩
  simp only [Reader.readAll, found before.bytes before.space first firstOpens,
    found before.bytes before.space second secondOpens, same]

/-- A fault in a value is a fault of the whole. -/
theorem Within.readAll_error (within : Within inner outer front) (framed : inner.IsFramed)
    {input : Bytes} (opens : Opens input) {fault : ReadError}
    (failure : inner.run input = .error fault) (before : Blanks) :
    outer.readAll (before.bytes ++ (front ++ input)) = .error fault := by
  rcases within.reaches framed.skips with ⟨goOn, found⟩
  simp only [Reader.readAll, found before.bytes before.space input opens, failure, Except.bind]

end

end BundlePacker.Json
