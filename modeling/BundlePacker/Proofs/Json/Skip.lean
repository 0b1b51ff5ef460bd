import BundlePacker.Proofs.Json.Grammar

/-!
# Values are skipped

The skipper keeps a list of the brackets that are open, and the grammar nests values in values.  The
two meet where a value ends: behind it the skipper goes on with the brackets that were open before.
In an enclosure each value has something that leads to it, which is nothing but blanks in a list
and a name with its colon in an object, and both kinds of enclosures are skipped alike.

The main statement says that every value of the grammar is skipped up to its end, however deeply it
is nested and whatever encloses it.
-/

namespace BundlePacker.Json

/-! ## Numbers -/

/-- Whether a value may end before bytes: at a blank, a comma, a bracket, or where the text ends. -/
def IsBoundary (rest : Bytes) : Prop :=
  ∀ byte ∈ rest.head?, isSpace byte = true ∨ byte = comma ∨ byte = closeSquare ∨ byte = closeCurly

namespace Number

theorem dropWhile_digits {digits rest : Bytes} (areDigits : ∀ byte ∈ digits, isDigit byte = true)
    (ends : ∀ byte ∈ rest.head?, isDigit byte = false) :
    (digits ++ rest).dropWhile isDigit = rest := by
  rw [List.dropWhile_append_of_pos areDigits]
  cases rest with
  | nil =>
      rfl
  | cons byte others =>
      simp [ends byte rfl]

/-- No blank is part of a number. -/
theorem not_continues_of_isSpace {byte : UInt8} (space : isSpace byte = true) :
    isDigit byte = false ∧ isExponentMark byte = false ∧ byte ≠ point := by
  simp only [isSpace, Bool.or_eq_true, decide_eq_true_eq] at space
  rcases space with ((rfl | rfl) | rfl) | rfl <;> decide

theorem isSpace_of_isDigit {byte : UInt8} (digit : isDigit byte = true) : isSpace byte = false := by
  cases space : isSpace byte with
  | false =>
      rfl
  | true =>
      rw [(not_continues_of_isSpace space).1] at digit
      cases digit

theorem ne_of_isDigit {byte other : UInt8} (digit : isDigit byte = true)
    (none : isDigit other = false) : byte ≠ other := by
  rintro rfl
  rw [digit] at none
  cases none

/-- No part of a number begins at a boundary. -/
theorem not_continues_of_boundary {rest : Bytes} (boundary : IsBoundary rest) :
    ∀ byte ∈ rest.head?, isDigit byte = false ∧ isExponentMark byte = false ∧ byte ≠ point := by
  intro byte first
  rcases boundary byte first with space | rfl | rfl | rfl
  · exact not_continues_of_isSpace space
  · decide
  · decide
  · decide

theorem skipExponentPart_append {exponent rest : Bytes} (isExponent : IsExponent exponent)
    (boundary : IsBoundary rest) : skipExponentPart (exponent ++ rest) = .ok rest := by
  have ends := not_continues_of_boundary boundary
  cases isExponent with
  | absent =>
      cases rest with
      | nil =>
          rfl
      | cons byte others =>
          simp [skipExponentPart, (ends byte rfl).2.1]
  | @present mark sign digits marks signs areDigits =>
      rcases areDigits with ⟨nonempty, each⟩
      rcases List.exists_cons_of_ne_nil nonempty with ⟨first, others, rfl⟩
      have digit : isDigit first = true := each first (by simp)
      have dropped : (others ++ rest).dropWhile isDigit = rest :=
        dropWhile_digits (fun byte member => each byte (List.mem_cons_of_mem _ member))
          fun byte first => (ends byte first).1
      have unsigned : ¬ (first = minus ∨ first = plus) :=
        fun signed => signed.elim (ne_of_isDigit digit (by decide))
          (ne_of_isDigit digit (by decide))
      rcases signs with rfl | rfl | rfl <;>
        simp [skipExponentPart, marks, skipExponent, unsigned, digit, dropped]

theorem head?_exponent {exponent rest : Bytes} (isExponent : IsExponent exponent)
    (boundary : IsBoundary rest) :
    ∀ byte ∈ (exponent ++ rest).head?, isDigit byte = false ∧ byte ≠ point := by
  cases isExponent with
  | absent =>
      intro byte first
      have ends := not_continues_of_boundary boundary byte first
      exact ⟨ends.1, ends.2.2⟩
  | present marks =>
      intro byte first
      cases first
      simp only [isExponentMark, Bool.or_eq_true, decide_eq_true_eq] at marks
      rcases marks with rfl | rfl <;> decide

theorem skipFractionPart_append {fraction exponent rest : Bytes} (isFraction : IsFraction fraction)
    (isExponent : IsExponent exponent) (boundary : IsBoundary rest) :
    skipFractionPart (fraction ++ (exponent ++ rest)) = .ok rest := by
  have skipped := skipExponentPart_append isExponent boundary
  have ends := head?_exponent isExponent boundary
  cases isFraction with
  | absent =>
      rw [List.nil_append]
      cases shape : exponent ++ rest with
      | nil =>
          rw [shape] at skipped
          exact skipped
      | cons byte others =>
          rw [shape] at skipped ends
          simp only [skipFractionPart, (ends byte rfl).2, if_false]
          exact skipped
  | @present digits areDigits =>
      rcases areDigits with ⟨nonempty, each⟩
      rcases List.exists_cons_of_ne_nil nonempty with ⟨first, others, rfl⟩
      have digit : isDigit first = true := each first (by simp)
      have dropped : (others ++ (exponent ++ rest)).dropWhile isDigit = exponent ++ rest :=
        dropWhile_digits (fun byte member => each byte (List.mem_cons_of_mem _ member))
          fun byte first => (ends byte first).1
      simp [skipFractionPart, digit, dropped, skipped]

theorem head?_fraction {fraction exponent rest : Bytes} (isFraction : IsFraction fraction)
    (isExponent : IsExponent exponent) (boundary : IsBoundary rest) :
    ∀ byte ∈ (fraction ++ (exponent ++ rest)).head?, isDigit byte = false := by
  cases isFraction with
  | absent =>
      exact fun byte first => (head?_exponent isExponent boundary byte first).1
  | present =>
      intro byte first
      cases first
      decide

/-- A number without its sign is skipped up to its end. -/
theorem skip_append {whole fraction exponent rest : Bytes} (isWhole : IsWhole whole)
    (isFraction : IsFraction fraction) (isExponent : IsExponent exponent)
    (boundary : IsBoundary rest) :
    skip (whole ++ (fraction ++ (exponent ++ rest))) = .ok rest := by
  have skipped := skipFractionPart_append isFraction isExponent boundary
  have ends := head?_fraction isFraction isExponent boundary
  cases isWhole with
  | zero =>
      have digit : isDigit zero = true := by decide
      have alone : (fraction ++ (exponent ++ rest)).head?.any isDigit = false := by
        rw [Option.any_eq_false_iff_get]
        intro some
        rw [ends _ (Option.get_mem some)]
      simp only [List.cons_append, List.nil_append, skip, digit, if_true, alone,
        Bool.false_eq_true, if_false, skipped]
  | @digits first others digit nonzero more =>
      have dropped : (others ++ (fraction ++ (exponent ++ rest))).dropWhile isDigit =
          fraction ++ (exponent ++ rest) := dropWhile_digits more ends
      simp only [List.cons_append, skip, digit, if_true, nonzero, if_false, dropped, skipped]

end Number

/-! ## Enclosures -/

theorem commaSeparated_cons (first : Bytes) (others : List Bytes) :
    commaSeparated (first :: others) = first ++ others.flatMap (comma :: ·) := by
  induction others generalizing first with
  | nil =>
      simp [commaSeparated]
  | cons second others hypothesis =>
      rw [commaSeparated, List.intercalate_cons_cons, ← commaSeparated, hypothesis]
      simp

theorem isBoundary_space_append {blanks rest : Bytes} (space : AllSpace blanks)
    (boundary : IsBoundary rest) : IsBoundary (blanks ++ rest) := by
  intro byte first
  cases blanks with
  | nil =>
      exact boundary byte first
  | cons blank others =>
      cases first
      exact .inl (space byte (by simp))

theorem isBoundary_cons {byte : UInt8} (ends : byte = comma ∨ byte = closeSquare ∨
    byte = closeCurly) (rest : Bytes) : IsBoundary (byte :: rest) := by
  intro first same
  cases same
  exact .inr ends

/-- Skip what closes after a value, and whatever is left of the enclosures that stay open. -/
def skipOn (isFresh : Bool) (enclosures : List Enclosure) (input : Bytes) :
    Except ReadError Bytes :=
  match skipClosing isFresh enclosures input with
  | .error fault => .error fault
  | .ok ([], after) => .ok after
  | .ok (inner :: outer, after) => skipFrom (inner :: outer) after

theorem skipOn_nil (isFresh : Bool) (input : Bytes) : skipOn isFresh [] input = .ok input :=
  rfl

theorem skipFrom_of_opening {enclosures : List Enclosure} {input rest : Bytes}
    {opened : Option Enclosure} (opens : skipOpening input = .ok (opened, rest)) :
    skipFrom enclosures input = skipOn opened.isSome (opened.toList ++ enclosures) rest := by
  rw [skipFrom, skipOn]
  split
  · next failed =>
    rw [opens] at failed
    cases failed
  · next again =>
    rw [opens] at again
    cases again
    split <;> next closed => simp only [closed]

namespace Enclosure

theorem isSpace_closing (enclosure : Enclosure) : isSpace enclosure.closing = false := by
  cases enclosure <;> decide

theorem comma_ne_closing (enclosure : Enclosure) : comma ≠ enclosure.closing := by
  cases enclosure <;> decide

theorem isBoundary_closing (enclosure : Enclosure) (rest : Bytes) :
    IsBoundary (enclosure.closing :: rest) := by
  cases enclosure
  · exact isBoundary_cons (.inr (.inl rfl)) rest
  · exact isBoundary_cons (.inr (.inr rfl)) rest

/--
Whether bytes lead to the next value of an enclosure, also from behind the opening bracket, where
blanks before them do not matter.
-/
structure Leads (enclosure : Enclosure) (lead : Bytes) : Prop where
  later : ∀ rest, ∃ blanks, AllSpace blanks ∧
    skipToValue enclosure (lead ++ rest) = .ok (blanks ++ rest)
  fresh : ∀ gap value rest, AllSpace gap → IsValue value →
    ∃ byte more, skipSpace (gap ++ (lead ++ (value ++ rest))) = byte :: more ∧
      byte ≠ enclosure.closing ∧ ∃ blanks, AllSpace blanks ∧
        skipToValue enclosure (byte :: more) = .ok (blanks ++ (value ++ rest))

end Enclosure

section

variable {blanks : Bytes} (space : AllSpace blanks) (enclosure : Enclosure)
  (outer : List Enclosure) (rest : Bytes)

include space

theorem skipOn_closing (isFresh : Bool) :
    skipOn isFresh (enclosure :: outer) (blanks ++ enclosure.closing :: rest) =
      skipOn false outer rest := by
  simp only [skipOn, skipClosing, skipSpace_append_cons space enclosure.isSpace_closing, if_true]

variable {enclosure}

/-- After a comma the next value of an enclosure is skipped. -/
theorem skipOn_comma {lead : Bytes} (leads : enclosure.Leads lead) :
    ∃ inner, AllSpace inner ∧
      skipOn false (enclosure :: outer) (blanks ++ comma :: (lead ++ rest)) =
        skipFrom (enclosure :: outer) (inner ++ rest) := by
  rcases leads.later rest with ⟨inner, innerSpace, skipped⟩
  refine ⟨inner, innerSpace, ?_⟩
  have token : isSpace comma = false := by decide
  simp only [skipOn, skipClosing, skipSpace_append_cons space token, enclosure.comma_ne_closing,
    if_false, Bool.false_eq_true, if_true, skipped]

/-- The first value of an enclosure is skipped. -/
theorem skipOn_fresh {lead value : Bytes} (leads : enclosure.Leads lead)
    (isValue : IsValue value) :
    ∃ inner, AllSpace inner ∧
      skipOn true (enclosure :: outer) (blanks ++ (lead ++ (value ++ rest))) =
        skipFrom (enclosure :: outer) (inner ++ (value ++ rest)) := by
  rcases leads.fresh blanks value rest space isValue with
    ⟨byte, more, shown, notClosing, inner, innerSpace, skipped⟩
  refine ⟨inner, innerSpace, ?_⟩
  simp only [skipOn, skipClosing, shown, notClosing, if_false, if_true, skipped]

end

/-- Whether a value is skipped up to its end, behind any blanks and inside any enclosures. -/
def Skips (value : Bytes) : Prop :=
  ∀ enclosures blanks rest, AllSpace blanks → IsBoundary rest →
    skipFrom enclosures (blanks ++ (value ++ rest)) = skipOn false enclosures rest

section

variable {ι : Type} {lead value : ι → Bytes} {after : ι → Blanks} {enclosure : Enclosure}

/-- The text of a value with what leads to it and the blanks after it. -/
def partText (lead value : ι → Bytes) (after : ι → Blanks) (part : ι) : Bytes :=
  lead part ++ (value part ++ (after part).bytes)

variable (after) in
/-- The values after the first one of an enclosure are skipped, up to the closing bracket. -/
theorem skipOn_parts {parts : List ι} (leads : ∀ part ∈ parts, enclosure.Leads (lead part))
    (skips : ∀ part ∈ parts, Skips (value part)) {blanks : Bytes} (space : AllSpace blanks)
    (outer : List Enclosure) (rest : Bytes) :
    skipOn false (enclosure :: outer)
        (blanks ++ (parts.flatMap (fun part => comma :: partText lead value after part) ++
          enclosure.closing :: rest)) =
      skipOn false outer rest := by
  induction parts generalizing blanks with
  | nil =>
      exact skipOn_closing space enclosure outer rest false
  | cons part others hypothesis =>
      have later := hypothesis (fun other member => leads other (List.mem_cons_of_mem _ member))
        (fun other member => skips other (List.mem_cons_of_mem _ member)) (after part).space
      have boundary : IsBoundary ((after part).bytes ++
          (others.flatMap (fun part => comma :: partText lead value after part) ++
            enclosure.closing :: rest)) := by
        apply isBoundary_space_append (after part).space
        cases others with
        | nil => exact enclosure.isBoundary_closing rest
        | cons next _ => exact isBoundary_cons (.inl rfl) _
      rcases skipOn_comma space outer
          (value part ++ ((after part).bytes ++
            (others.flatMap (fun part => comma :: partText lead value after part) ++
              enclosure.closing :: rest)))
          (leads part (List.mem_cons_self ..)) with ⟨inner, innerSpace, skipped⟩
      rw [List.flatMap_cons]
      simp only [partText, List.cons_append, List.append_assoc] at skipped later boundary ⊢
      rw [skipped, skips part (List.mem_cons_self ..) _ _ _ innerSpace boundary, later]

/-- The values of an enclosure are skipped, from behind its opening bracket. -/
theorem skipOn_enclosed {parts : List ι} (leads : ∀ part ∈ parts, enclosure.Leads (lead part))
    (isValue : ∀ part ∈ parts, IsValue (value part)) (skips : ∀ part ∈ parts, Skips (value part))
    (gap : Blanks) (outer : List Enclosure) (rest : Bytes) :
    skipOn true (enclosure :: outer)
        (gap.bytes ++ (commaSeparated (parts.map (partText lead value after)) ++
          enclosure.closing :: rest)) =
      skipOn false outer rest := by
  cases parts with
  | nil =>
      exact skipOn_closing gap.space enclosure outer rest true
  | cons first others =>
      have later := skipOn_parts after
        (fun other member => leads other (List.mem_cons_of_mem _ member))
        (fun other member => skips other (List.mem_cons_of_mem _ member)) (after first).space
        outer rest
      have boundary : IsBoundary ((after first).bytes ++
          (others.flatMap (fun part => comma :: partText lead value after part) ++
            enclosure.closing :: rest)) := by
        apply isBoundary_space_append (after first).space
        cases others with
        | nil => exact enclosure.isBoundary_closing rest
        | cons next _ => exact isBoundary_cons (.inl rfl) _
      rcases skipOn_fresh gap.space outer
          ((after first).bytes ++
            (others.flatMap (fun part => comma :: partText lead value after part) ++
              enclosure.closing :: rest))
          (leads first (List.mem_cons_self ..)) (isValue first (List.mem_cons_self ..)) with
        ⟨inner, innerSpace, skipped⟩
      rw [List.map_cons, commaSeparated_cons, List.flatMap_map]
      simp only [partText, List.append_assoc] at skipped later boundary ⊢
      rw [skipped, skips first (List.mem_cons_self ..) _ _ _ innerSpace boundary, later]

end

/-! ## What leads to a value -/

theorem skipToValue_object {blanks : Bytes} (space : AllSpace blanks) {body : Bytes}
    (isBody : IsBody body) {blanksAfter : Bytes} (spaceAfter : AllSpace blanksAfter)
    (rest : Bytes) :
    skipToValue .object (blanks ++ quote :: (body ++ quote :: (blanksAfter ++ colon :: rest))) =
      .ok rest := by
  have token : isSpace quote = false := by decide
  have tokenColon : isSpace colon = false := by decide
  simp only [skipToValue, skipName, skipSpace_append_cons space token, if_true,
    skipContent_of_isBody isBody, skipColon, skipSpace_append_cons spaceAfter tokenColon]

/-- Every value begins with a byte that is no blank and closes no list. -/
theorem IsValue.exists_cons {value : Bytes} (isValue : IsValue value) :
    ∃ byte rest, value = byte :: rest ∧ isSpace byte = false ∧ byte ≠ closeSquare := by
  cases isValue with
  | null | yes | no =>
      exact ⟨_, _, rfl, by decide, by decide⟩
  | number isNumber =>
      cases isNumber with
      | parts signs isWhole isFraction isExponent =>
          rcases signs with rfl | rfl
          · cases isWhole with
            | zero => exact ⟨_, _, rfl, by decide, by decide⟩
            | digits digit =>
                exact ⟨_, _, rfl, Number.isSpace_of_isDigit digit,
                  Number.ne_of_isDigit digit (by decide)⟩
          · exact ⟨_, _, rfl, by decide, by decide⟩
  | text | list | object =>
      exact ⟨_, _, rfl, by decide, by decide⟩

theorem Item.leads (item : Item) : Enclosure.list.Leads item.before.bytes where
  later rest := ⟨item.before.bytes, item.before.space, rfl⟩
  fresh gap value rest space isValue := by
    rcases isValue.exists_cons with ⟨byte, more, rfl, token, proper⟩
    refine ⟨byte, more ++ rest, ?_, proper, [], allSpace_nil, rfl⟩
    rw [skipSpace_append space]
    exact skipSpace_append_cons item.before.space token _

/-- What stands before the value of a member. -/
def Member.lead (member : Member) : Bytes :=
  member.beforeName.bytes ++
    quote :: (member.spelling ++
      quote :: (member.afterName.bytes ++ colon :: member.before.bytes))

theorem Member.leads {member : Member} (isBody : IsBody member.spelling) :
    Enclosure.object.Leads member.lead where
  later rest := by
    refine ⟨member.before.bytes, member.before.space, ?_⟩
    have skipped := skipToValue_object member.beforeName.space isBody member.afterName.space
      (member.before.bytes ++ rest)
    simpa [Member.lead] using skipped
  fresh gap value rest space isValue := by
    have token : isSpace quote = false := by decide
    have skipped := skipToValue_object allSpace_nil isBody member.afterName.space
      (member.before.bytes ++ (value ++ rest))
    refine ⟨quote, _, ?_, by decide, member.before.bytes, member.before.space, skipped⟩
    rw [skipSpace_append space]
    simpa [Member.lead] using skipSpace_append_cons member.beforeName.space token
      (member.spelling ++ quote :: (member.afterName.bytes ++ colon ::
        (member.before.bytes ++ (value ++ rest))))

/-! ## Values -/

/-- A value without brackets is skipped if it is skipped where it stands first. -/
theorem skips_of_scalar {byte : UInt8} {more : Bytes} (token : isSpace byte = false)
    (opens : ∀ rest, IsBoundary rest →
      skipOpening (byte :: (more ++ rest)) = .ok (none, rest)) : Skips (byte :: more) := by
  intro enclosures blanks rest space boundary
  have shown : skipSpace (blanks ++ byte :: (more ++ rest)) = byte :: (more ++ rest) :=
    skipSpace_append_cons space token _
  have shownAlone : skipSpace (byte :: (more ++ rest)) = byte :: (more ++ rest) :=
    skipSpace_append_cons allSpace_nil token _
  have opened : skipOpening (blanks ++ byte :: (more ++ rest)) = .ok (none, rest) := by
    rw [← opens rest boundary, skipOpening, skipOpening, shown, shownAlone]
  exact skipFrom_of_opening opened

theorem skipOpening_of_digit {byte : UInt8} {more rest : Bytes}
    (digit : Number.isDigit byte = true) (skipped : Number.skip (byte :: more) = .ok rest) :
    skipOpening (byte :: more) = .ok (none, rest) := by
  have shown : skipSpace (byte :: more) = byte :: more :=
    skipSpace_append_cons allSpace_nil (Number.isSpace_of_isDigit digit) more
  have noList : byte ≠ openSquare := Number.ne_of_isDigit digit (by decide)
  have noObject : byte ≠ openCurly := Number.ne_of_isDigit digit (by decide)
  have noText : byte ≠ quote := Number.ne_of_isDigit digit (by decide)
  have noSign : byte ≠ Number.minus := Number.ne_of_isDigit digit (by decide)
  simp only [skipOpening, shown, noList, noObject, noText, noSign, digit, if_false, if_true,
    skipped]

theorem skips_number {bytes : Bytes} (isNumber : IsNumber bytes) : Skips bytes := by
  cases isNumber with
  | @parts sign whole fraction exponent signs isWhole isFraction isExponent =>
      have skipped : ∀ rest, IsBoundary rest →
          Number.skip (whole ++ (fraction ++ (exponent ++ rest))) = .ok rest :=
        fun rest boundary => Number.skip_append isWhole isFraction isExponent boundary
      rcases signs with rfl | rfl
      · cases isWhole with
        | zero =>
            refine skips_of_scalar (by decide) fun rest boundary => ?_
            simpa using skipOpening_of_digit (by decide) (skipped rest boundary)
        | digits digit nonzero more =>
            refine skips_of_scalar (Number.isSpace_of_isDigit digit) fun rest boundary => ?_
            simpa using skipOpening_of_digit digit (skipped rest boundary)
      · refine skips_of_scalar (by decide) fun rest boundary => ?_
        have shown : ∀ more, skipSpace (Number.minus :: more) = Number.minus :: more :=
          skipSpace_append_cons allSpace_nil (by decide)
        have noList : Number.minus ≠ openSquare := by decide
        have noObject : Number.minus ≠ openCurly := by decide
        have noText : Number.minus ≠ quote := by decide
        simp [skipOpening, shown, noList, noObject, noText, skipped rest boundary]

/-- Every value of JSON is skipped up to its end. -/
theorem skips_of_isValue {value : Bytes} (isValue : IsValue value) : Skips value := by
  induction isValue with
  | null | yes | no =>
      exact skips_of_scalar (by decide) fun rest boundary => rfl
  | number isNumber =>
      exact skips_number isNumber
  | text isBody =>
      refine skips_of_scalar (by decide) fun rest boundary => ?_
      have shown : ∀ more, skipSpace (quote :: more) = quote :: more :=
        skipSpace_append_cons allSpace_nil (by decide)
      have noList : quote ≠ openSquare := by decide
      have noObject : quote ≠ openCurly := by decide
      simp [skipOpening, shown, noList, noObject, skipContent_of_isBody isBody]
  | list gap items each hypothesis =>
      intro enclosures blanks rest space boundary
      have opened : skipOpening (blanks ++ (listText gap items ++ rest)) =
          .ok (some .list,
            gap.bytes ++ (commaSeparated (items.map Item.bytes) ++ closeSquare :: rest)) := by
        have token : isSpace openSquare = false := by decide
        simp [skipOpening, listText, skipSpace_append_cons space token]
      rw [skipFrom_of_opening opened]
      exact skipOn_enclosed (fun item _ => item.leads) each hypothesis gap enclosures rest
  | object gap members names each hypothesis =>
      intro enclosures blanks rest space boundary
      have opened : skipOpening (blanks ++ (objectText gap members ++ rest)) =
          .ok (some .object,
            gap.bytes ++ (commaSeparated (members.map Member.bytes) ++ closeCurly :: rest)) := by
        have token : isSpace openCurly = false := by decide
        have noList : openCurly ≠ openSquare := by decide
        simp [skipOpening, objectText, skipSpace_append_cons space token, noList]
      have texts : Member.bytes = partText Member.lead (fun member => member.value)
          fun member => member.after := by
        funext member
        simp [Member.bytes, Item.bytes, partText, Member.lead]
      rw [skipFrom_of_opening opened, texts]
      exact skipOn_enclosed (fun member inside => Member.leads (names member inside)) each
        hypothesis gap enclosures rest

end BundlePacker.Json
