import Mathlib.Data.List.Induction
import BundlePacker.Proofs.Json.Object

/-!
# What becomes of an object that stands for a record

Each field of a record has a part of the drafts for itself: its value fills the part, and no other
value touches it.  So whether a field has come shows in the draft, and in the end each part holds
the value of the member of that name.

The main statement compares the names of an object's members with those of the fields.  A field that
comes twice is an error, then a field that does not come at all, and otherwise the record is made of
the values of its members, in whatever order they come and whatever comes between them.
-/

namespace BundlePacker.Json

/-! ## Names that come and names that are known -/

/-- Whether no known name comes twice. -/
def AtMostOnce (known names : List String) : Prop :=
  ∀ name ∈ known, names.count name ≤ 1

/-- Whether a name is the first of the known ones that comes a second time. -/
def FirstRepeated (known names : List String) (name : String) : Prop :=
  ∃ before after, names = before ++ name :: after ∧ AtMostOnce known before ∧
    name ∈ known ∧ name ∈ before

/-- Whether a name is the first of the known ones that does not come. -/
def FirstAbsent (known names : List String) (name : String) : Prop :=
  ∃ before after, known = before ++ name :: after ∧ (∀ earlier ∈ before, earlier ∈ names) ∧
    name ∉ names

/-- What becomes of an object, given the names of its members and the names that are known. -/
inductive ObjectOutcome {α : Type} (known names : List String) (Gives : α → Prop) :
    Except ReadError α → Prop
  /-- A known name comes twice. -/
  | repeated {name : String} {fault : ReadError} (first : FirstRepeated known names name)
      (message : fault.message = "duplicate field `" ++ name ++ "`")
      (category : fault.category = .data) :
      ObjectOutcome known names Gives (.error fault)
  /-- No known name comes twice, and one does not come at all. -/
  | missing {name : String} {fault : ReadError} (once : AtMostOnce known names)
      (first : FirstAbsent known names name)
      (message : fault.message = "missing field `" ++ name ++ "`")
      (category : fault.category = .data) :
      ObjectOutcome known names Gives (.error fault)
  /-- Every known name comes once. -/
  | made {value : α} (once : AtMostOnce known names) (all : ∀ name ∈ known, name ∈ names)
      (gives : Gives value) :
      ObjectOutcome known names Gives (.ok value)

theorem ObjectOutcome.imp {α : Type} {known names : List String} {Gives Gains : α → Prop}
    {outcome : Except ReadError α} (settled : ObjectOutcome known names Gives outcome)
    (gains : ∀ value, Gives value → Gains value) : ObjectOutcome known names Gains outcome := by
  cases settled with
  | repeated first message category => exact .repeated first message category
  | missing once first message category => exact .missing once first message category
  | made once all gives => exact .made once all (gains _ gives)

theorem AtMostOnce.of_cons {known names : List String} {name : String}
    (once : AtMostOnce known (name :: names)) : AtMostOnce known names :=
  fun other isKnown => (List.count_le_count_cons ..).trans (once other isKnown)

theorem AtMostOnce.not_mem_of_cons {known names : List String} {name : String}
    (once : AtMostOnce known (name :: names)) (isKnown : name ∈ known) : name ∉ names := by
  intro again
  have bound := once name isKnown
  rw [List.count_cons_self] at bound
  have positive := List.count_pos_iff.mpr again
  omega

/-- Either no known name comes twice, or there is a first one that does. -/
theorem atMostOnce_or_firstRepeated (known names : List String) :
    AtMostOnce known names ∨ ∃ name, FirstRepeated known names name := by
  induction names using List.reverseRecOn with
  | nil =>
      exact .inl fun name _ => by simp
  | append_singleton before name hypothesis =>
      rcases hypothesis with once | ⟨first, earlier, after, rfl, once, isKnown, comes⟩
      · by_cases again : name ∈ known ∧ name ∈ before
        · exact .inr ⟨name, before, [], rfl, once, again.1, again.2⟩
        · refine .inl fun other isKnown => ?_
          rw [List.count_append, List.count_singleton]
          by_cases same : name = other
          · subst same
            have fresh : before.count name = 0 :=
              List.count_eq_zero.mpr fun comes => again ⟨isKnown, comes⟩
            simp [fresh]
          · simpa [same] using once other isKnown
      · exact .inr ⟨first, earlier, after ++ [name], by simp, once, isKnown, comes⟩

/-- Either every known name comes, or there is a first one that does not. -/
theorem all_or_firstAbsent (known names : List String) :
    (∀ name ∈ known, name ∈ names) ∨ ∃ name, FirstAbsent known names name := by
  induction known with
  | nil =>
      exact .inl fun _ inside => absurd inside List.not_mem_nil
  | cons first others hypothesis =>
      by_cases comes : first ∈ names
      · rcases hypothesis with all | ⟨name, before, after, rfl, earlier, absent⟩
        · exact .inl (List.forall_mem_cons.mpr ⟨comes, all⟩)
        · exact .inr ⟨name, first :: before, after, rfl,
            List.forall_mem_cons.mpr ⟨comes, earlier⟩, absent⟩
      · exact .inr ⟨first, [], others, rfl, (fun _ inside => absurd inside List.not_mem_nil), comes⟩

/-! ## Fields and their parts of the drafts -/

/-- The value of the first member of a given name, as a reader takes it. -/
def memberValue? {β : Type} (members : List (String × Member)) (name : String)
    (reader : Reader β) : Option β :=
  (members.lookup name).bind fun member => (reader.readAll member.value).toOption

theorem memberValue?_cons_self {β : Type} {reader : Reader β} {member : Member} {value : β}
    (reads : reader.readAll member.value = .ok value) (name : String)
    (members : List (String × Member)) :
    memberValue? ((name, member) :: members) name reader = some value := by
  simp [memberValue?, reads, Except.toOption]

theorem memberValue?_cons_of_ne {β : Type} {name other : String} (differs : name ≠ other)
    (reader : Reader β) (member : Member) (members : List (String × Member)) :
    memberValue? ((other, member) :: members) name reader =
      memberValue? members name reader := by
  simp [memberValue?, List.lookup_cons, beq_false_of_ne differs]

/-- A value that members give is that of a member. -/
theorem exists_of_memberValue? {β : Type} {members : List (String × Member)} {name : String}
    {reader : Reader β} {value : β} (gives : memberValue? members name reader = some value) :
    ∃ member, (name, member) ∈ members ∧ reader.readAll member.value = .ok value := by
  rcases Option.bind_eq_some_iff.mp gives with ⟨member, found, reads⟩
  refine ⟨member, ?_, ?_⟩
  · rcases List.lookup_eq_some_iff.mp found with ⟨before, after, rfl, -⟩
    simp
  · cases outcome : reader.readAll member.value with
    | error fault =>
        rw [outcome] at reads
        cases reads
    | ok other =>
        rw [outcome] at reads
        cases reads
        rfl

namespace Record

variable {σ α : Type} {record : Record σ α}

/-- The names of a record's fields. -/
def names (record : Record σ α) : List String :=
  record.fields.map Field.name

/-- Whether a part of the drafts belongs to a field, whose value a reader takes. -/
structure Slot {β : Type} (record : Record σ α) (name : String) (reader : Reader β)
    (part : σ → Option β) : Prop where
  known : name ∈ record.names
  blank : part record.blank = none
  present : ∀ field ∈ record.fields, field.name = name → ∀ draft,
    field.isPresent draft = (part draft).isSome
  own : ∀ field ∈ record.fields, field.name = name → ∀ ⦃text update⦄,
    field.value.readAll text = .ok update →
      ∃ value, reader.readAll text = .ok value ∧ ∀ draft, part (update draft) = some value
  others : ∀ field ∈ record.fields, field.name ≠ name → ∀ ⦃text update⦄,
    field.value.readAll text = .ok update → ∀ draft, part (update draft) = part draft

/-- Whether the values of a field leave a part of the drafts alone. -/
def Keeps {β : Type} (field : Field σ) (part : σ → Option β) : Prop :=
  ∀ ⦃text update⦄, field.value.readAll text = .ok update →
    ∀ draft, part (update draft) = part draft

theorem keeps_of_map {β γ : Type} {name : String} {isPresent : σ → Bool} {reader : Reader γ}
    {set : γ → σ → σ} {part : σ → Option β}
    (keeps : ∀ value draft, part (set value draft) = part draft) :
    Keeps ⟨name, isPresent, reader.map set⟩ part := by
  intro text update reads
  rcases Reader.readAll_map_eq_ok_iff.mp reads with ⟨value, -, rfl⟩
  exact keeps value

/-- A field has a part for itself if its values, and no others, are put there. -/
theorem Slot.of_fields {β : Type} (before after : List (Field σ)) {name : String}
    {isPresent : σ → Bool} {reader : Reader β} {part : σ → Option β} {set : β → σ → σ}
    (fields : record.fields = before ++ ⟨name, isPresent, reader.map set⟩ :: after)
    (alone : ∀ other ∈ before ++ after, other.name ≠ name) (blank : part record.blank = none)
    (present : ∀ draft, isPresent draft = (part draft).isSome)
    (own : ∀ value draft, part (set value draft) = some value)
    (others : ∀ other ∈ before ++ after, Keeps other part) : record.Slot name reader part := by
  have choices : ∀ field ∈ record.fields,
      field = ⟨name, isPresent, reader.map set⟩ ∨ field ∈ before ++ after := by
    intro field inside
    rw [fields] at inside
    simpa [or_left_comm] using inside
  constructor
  case known => simp [names, fields]
  case blank => exact blank
  case present =>
    intro field inside same
    rcases choices field inside with rfl | other
    · exact present
    · exact absurd same (alone field other)
  case own =>
    intro field inside same text update reads
    rcases choices field inside with rfl | other
    · rcases Reader.readAll_map_eq_ok_iff.mp reads with ⟨value, found, rfl⟩
      exact ⟨value, found, own value⟩
    · exact absurd same (alone field other)
  case others =>
    intro field inside differs text update reads
    rcases choices field inside with rfl | other
    · exact absurd rfl differs
    · exact others field other reads

/-- A record whose fields do not disturb each other, and which needs each of them. -/
structure IsLawful (record : Record σ α) : Prop where
  framed : ∀ field ∈ record.fields, field.value.IsFramed
  slots : ∀ field ∈ record.fields, ∃ (β : Type) (reader : Reader β) (part : σ → Option β),
    record.Slot field.name reader part
  missing : ∀ draft field, record.fields.find? (fun field => !field.isPresent draft) = some field →
    record.finish draft = .error (.missingField field.name)
  made : ∀ draft, record.fields.find? (fun field => !field.isPresent draft) = none →
    ∃ value, record.finish draft = .ok value

/--
Whether a member can be part of an object for a record: its name is spelled, its value is read by
the field of that name, and under a name without a field any value of JSON will do.
-/
structure Fits (record : Record σ α) (name : String) (member : Member) : Prop where
  spells : Spells member.spelling name.toList
  known : ∀ field ∈ record.fields, field.name = name →
    ∃ update, field.value.readAll member.value = .ok update
  unknown : name ∉ record.names → IsValue member.value

theorem IsLawful.reader_isFramed (lawful : record.IsLawful) : record.reader.IsFramed :=
  Record.reader_isFramed fun field inside => (lawful.framed field inside).ends.isLocal

/-- The field of a known name. -/
theorem exists_field {name : String} (known : name ∈ record.names) :
    ∃ field ∈ record.fields, field.name = name ∧
      record.fields.find? (fun field => field.name = name) = some field := by
  rcases List.mem_map.mp known with ⟨field, member, same⟩
  cases found : record.fields.find? fun field => field.name = name with
  | none =>
      have none := List.find?_eq_none.mp found field member
      simp [same] at none
  | some field =>
      exact ⟨field, List.mem_of_find?_eq_some found, by simpa using List.find?_some found, rfl⟩

/-- Under a name without a field, a value is skipped. -/
theorem gather_unknown {name : String} (unknown : name ∉ record.names) (draft : σ) :
    record.gather draft name = .ok (anyValue.map fun _ => id) := by
  have none : record.fields.find? (fun field => field.name = name) = none := by
    rw [List.find?_eq_none]
    intro field member same
    exact unknown (List.mem_map.mpr ⟨field, member, by simpa using same⟩)
  simp only [gather, none]

theorem gather_known {field : Field σ}
    (found : record.fields.find? (fun other => other.name = field.name) = some field) {draft : σ}
    (free : field.isPresent draft = false) : record.gather draft field.name = .ok field.value := by
  simp [gather, found, free]

theorem gather_repeated {field : Field σ}
    (found : record.fields.find? (fun other => other.name = field.name) = some field) {draft : σ}
    (present : field.isPresent draft = true) :
    record.gather draft field.name = .error (.duplicateField field.name) := by
  simp [gather, found, present]

variable {members : List (String × Member)}

/-- Whether each part of a draft holds what it held before, or else what members give to it. -/
def Filled (record : Record σ α) (before : σ) (members : List (String × Member)) (draft : σ) :
    Prop :=
  ∀ ⦃β : Type⦄ ⦃name : String⦄ ⦃reader : Reader β⦄ ⦃part : σ → Option β⦄,
    record.Slot name reader part → part draft = (part before).or (memberValue? members name reader)

/-- Members of which none is repeated are taken up, and fill the parts of their fields. -/
theorem exists_takesUp (lawful : record.IsLawful)
    (fits : ∀ pair ∈ members, record.Fits pair.1 pair.2)
    (once : AtMostOnce record.names (members.map Prod.fst)) {draft : σ}
    (free : ∀ field ∈ record.fields, field.name ∈ members.map Prod.fst →
      field.isPresent draft = false) :
    ∃ last, TakesUp record.gather draft members last ∧ record.Filled draft members last := by
  induction members generalizing draft with
  | nil =>
      exact ⟨draft, .nil draft, fun slot => by simp [memberValue?]⟩
  | cons pair members hypothesis =>
      rcases pair with ⟨name, member⟩
      have fit : record.Fits name member := fits _ (List.mem_cons_self ..)
      have laterFits : ∀ pair ∈ members, record.Fits pair.1 pair.2 :=
        fun pair inside => fits pair (List.mem_cons_of_mem _ inside)
      rw [List.map_cons] at once free
      by_cases isKnown : name ∈ record.names
      · rcases exists_field isKnown with ⟨field, inside, rfl, found⟩
        rcases fit.known field inside rfl with ⟨update, reads⟩
        have fresh := once.not_mem_of_cons isKnown
        have fieldFree := free field inside (List.mem_cons_self ..)
        have laterFree : ∀ other ∈ record.fields, other.name ∈ members.map Prod.fst →
            other.isPresent (update draft) = false := by
          intro other otherInside comes
          have differs : field.name ≠ other.name := fun same => fresh (same ▸ comes)
          rcases lawful.slots other otherInside with ⟨β, reader, part, slot⟩
          rw [slot.present other otherInside rfl, slot.others field inside differs reads,
            ← slot.present other otherInside rfl]
          exact free other otherInside (List.mem_cons_of_mem _ comes)
        rcases hypothesis laterFits once.of_cons laterFree with ⟨last, takesUp, filled⟩
        refine ⟨last, .cons fit.spells (gather_known found fieldFree)
          ((lawful.framed field inside).takes reads) takesUp, ?_⟩
        intro β name reader part slot
        rw [filled slot]
        by_cases same : field.name = name
        · rcases slot.own field inside same reads with ⟨value, gives, holds⟩
          have none : part draft = none := by
            rw [slot.present field inside same] at fieldFree
            simpa using fieldFree
          subst same
          rw [holds, none, memberValue?_cons_self gives]
          rfl
        · rw [slot.others field inside same reads,
            memberValue?_cons_of_ne fun equal => same equal.symm]
      · have laterFree : ∀ other ∈ record.fields, other.name ∈ members.map Prod.fst →
            other.isPresent draft = false :=
          fun other inside comes => free other inside (List.mem_cons_of_mem _ comes)
        rcases hypothesis laterFits once.of_cons laterFree with ⟨last, takesUp, filled⟩
        refine ⟨last, .cons fit.spells (gather_unknown isKnown draft)
          ((anyValue_takes (fit.unknown isKnown)).map _) takesUp, ?_⟩
        intro β other reader part slot
        have differs : other ≠ name := fun same => isKnown (same ▸ slot.known)
        rw [filled slot, memberValue?_cons_of_ne differs]

/-- After all members, a field is present if one of them has its name. -/
theorem isPresent_of_filled (lawful : record.IsLawful)
    (fits : ∀ pair ∈ members, record.Fits pair.1 pair.2) {last : σ}
    (filled : record.Filled record.blank members last) {field : Field σ}
    (inside : field ∈ record.fields) :
    field.isPresent last = true ↔ field.name ∈ members.map Prod.fst := by
  rcases lawful.slots field inside with ⟨β, reader, part, slot⟩
  rw [slot.present field inside rfl, filled slot, slot.blank, Option.none_or]
  constructor
  · intro some
    rcases Option.isSome_iff_exists.mp some with ⟨value, gives⟩
    rcases exists_of_memberValue? gives with ⟨member, comes, -⟩
    exact List.mem_map.mpr ⟨_, comes, rfl⟩
  · intro comes
    cases found : members.lookup field.name with
    | none =>
        rcases List.mem_map.mp comes with ⟨pair, member, same⟩
        have differs := List.lookup_eq_none_iff.mp found pair member
        simp [same] at differs
    | some member =>
        rcases List.lookup_eq_some_iff.mp found with ⟨before, after, rfl, -⟩
        have fit := fits (field.name, member) (by simp)
        rcases fit.known field inside rfl with ⟨update, reads⟩
        rcases slot.own field inside rfl reads with ⟨value, gives, -⟩
        simp [memberValue?, found, gives, Except.toOption]

/-! ## Whole texts -/

/-- The reading of an object goes on behind its opening bracket. -/
theorem readAll_objectText (before gap after : Blanks) {inside : Bytes}
    (shape : objectText gap (members.map Prod.snd) ++ after.bytes = openCurly :: inside) :
    record.reader.readAll
        (before.bytes ++ (objectText gap (members.map Prod.snd) ++ after.bytes)) =
      match record.readObject inside with
      | .error fault => .error fault
      | .ok (value, rest) => if skipSpace rest = [] then .ok value else .error .trailingCharacters := by
  have token : isSpace openCurly = false := by decide
  have opened : record.reader.run (before.bytes ++ openCurly :: inside) =
      record.readObject inside := by
    simp only [reader, skipSpace_append_cons before.space token, if_true]
  rw [shape, ← opened]
  rfl

/-- An object whose members are taken up makes the record of their draft. -/
theorem readAll_of_takesUp {draft : σ} (takesUp : TakesUp record.gather record.blank members draft)
    (before gap after : Blanks) :
    record.reader.readAll
        (before.bytes ++ (objectText gap (members.map Prod.snd) ++ after.bytes)) =
      record.finish draft := by
  rcases exists_objectText gap members after.bytes with ⟨inside, shape⟩
  have nothingLeft : skipSpace after.bytes = [] := List.dropWhile_eq_nil_iff.mpr after.space
  rw [readAll_objectText before gap after shape, readObject, readMembers_object takesUp gap shape]
  simp only [finishWith]
  cases record.finish draft with
  | error fault => rfl
  | ok value => simp only [nothingLeft, if_true]

theorem isPresent_blank (lawful : record.IsLawful) {field : Field σ}
    (inside : field ∈ record.fields) : field.isPresent record.blank = false := by
  rcases lawful.slots field inside with ⟨β, reader, part, slot⟩
  rw [slot.present field inside rfl, slot.blank, Option.isSome_none]

/-- A known name that comes a second time is an error, whatever comes after it. -/
theorem readAll_of_firstRepeated (lawful : record.IsLawful)
    (fits : ∀ pair ∈ members, record.Fits pair.1 pair.2) {name : String}
    (first : FirstRepeated record.names (members.map Prod.fst) name) (before gap after : Blanks) :
    record.reader.readAll
        (before.bytes ++ (objectText gap (members.map Prod.snd) ++ after.bytes)) =
      .error (.duplicateField name) := by
  rcases first with ⟨earlierNames, laterNames, split, once, isKnown, comes⟩
  rcases List.map_eq_append_iff.mp split with ⟨earlier, rest, rfl, rfl, others⟩
  rcases List.map_eq_cons_iff.mp others with ⟨⟨_, member⟩, later, rfl, rfl, -⟩
  rcases exists_field isKnown with ⟨field, inside, same, found⟩
  have earlierFits : ∀ pair ∈ earlier, record.Fits pair.1 pair.2 :=
    fun pair member => fits pair (List.mem_append_left _ member)
  rcases exists_takesUp lawful earlierFits once fun field inside _ => isPresent_blank lawful inside
    with ⟨draft, takesUp, filled⟩
  have present := (isPresent_of_filled lawful earlierFits filled inside).mpr (same ▸ comes)
  subst same
  rcases exists_objectText gap (earlier ++ (field.name, member) :: later) after.bytes
    with ⟨start, shape⟩
  have spells := (fits (field.name, member) (by simp)).spells
  rw [readAll_objectText before gap after shape, readObject,
    readMembers_object_refused takesUp spells (gather_repeated found present) later gap shape]

/-- The first field that does not come is missing from the draft of all members. -/
theorem find?_of_firstAbsent (lawful : record.IsLawful)
    (fits : ∀ pair ∈ members, record.Fits pair.1 pair.2) {draft : σ}
    (filled : record.Filled record.blank members draft) {name : String}
    (first : FirstAbsent record.names (members.map Prod.fst) name) :
    ∃ field, field.name = name ∧
      record.fields.find? (fun field => !field.isPresent draft) = some field := by
  rcases first with ⟨earlierNames, laterNames, split, come, absent⟩
  rcases List.map_eq_append_iff.mp split with ⟨earlier, rest, whole, rfl, others⟩
  rcases List.map_eq_cons_iff.mp others with ⟨field, later, rfl, rfl, -⟩
  have fieldAbsent : ¬ field.isPresent draft = true := fun isPresent =>
    absent ((isPresent_of_filled lawful fits filled (by simp [whole])).mp isPresent)
  have earlierPresent : ∀ other ∈ earlier, other.isPresent draft = true := fun other inside =>
    (isPresent_of_filled lawful fits filled (by simp [whole, inside])).mpr
      (come _ (List.mem_map.mpr ⟨other, inside, rfl⟩))
  refine ⟨field, rfl, List.find?_eq_some_iff_append.mpr ⟨by simpa using fieldAbsent, ?_⟩⟩
  exact ⟨earlier, later, whole, fun other inside => by simp [earlierPresent other inside]⟩

/-- An object for a record is settled by the names of its members. -/
theorem objectOutcome (lawful : record.IsLawful)
    (fits : ∀ pair ∈ members, record.Fits pair.1 pair.2) (before gap after : Blanks) :
    ObjectOutcome record.names (members.map Prod.fst)
      (fun value => ∃ draft, record.finish draft = .ok value ∧
        record.Filled record.blank members draft)
      (record.reader.readAll
        (before.bytes ++ (objectText gap (members.map Prod.snd) ++ after.bytes))) := by
  rcases atMostOnce_or_firstRepeated record.names (members.map Prod.fst) with once | ⟨name, first⟩
  · rcases exists_takesUp lawful fits once fun field inside _ => isPresent_blank lawful inside
      with ⟨draft, takesUp, filled⟩
    rw [readAll_of_takesUp takesUp]
    rcases all_or_firstAbsent record.names (members.map Prod.fst) with all | ⟨name, first⟩
    · have present : record.fields.find? (fun field => !field.isPresent draft) = none := by
        refine List.find?_eq_none.mpr fun field inside => ?_
        have comes := all _ (List.mem_map.mpr ⟨field, inside, rfl⟩)
        simp [(isPresent_of_filled lawful fits filled inside).mpr comes]
      rcases lawful.made draft present with ⟨value, finished⟩
      rw [finished]
      exact .made once all ⟨draft, finished, filled⟩
    · rcases find?_of_firstAbsent lawful fits filled first with ⟨field, rfl, found⟩
      rw [lawful.missing draft field found]
      exact .missing once first rfl rfl
  · rw [readAll_of_firstRepeated lawful fits first]
    exact .repeated first rfl rfl

end Record

end BundlePacker.Json
