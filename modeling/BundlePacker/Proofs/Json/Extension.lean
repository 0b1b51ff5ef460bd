import BundlePacker.Proofs.Json.Skip

/-!
# What follows a value

A text or a name ends with a byte of its own, and a reader that has read that byte has not looked
any further.  A number or a word has no such byte: whether it is over shows in the byte behind it,
and so only what follows that byte does not matter.

The main statements say that a text and a name are read in the same way whatever is put behind them,
and that a value of any kind is skipped in the same way if it was not the end of the text.
-/

namespace BundlePacker.Json

namespace Reader

variable {α β : Type}

/-- Whether a reader takes the same value off a text when more follows the text. -/
def EndsItself (reader : Reader α) : Prop :=
  ∀ ⦃input : Bytes⦄ ⦃value : α⦄ ⦃rest : Bytes⦄, reader.run input = .ok (value, rest) →
    ∀ more, reader.run (input ++ more) = .ok (value, rest ++ more)

/-- Whether it does so at least if its value was not the end of the text. -/
def IsLocal (reader : Reader α) : Prop :=
  ∀ ⦃input : Bytes⦄ ⦃value : α⦄ ⦃rest : Bytes⦄, reader.run input = .ok (value, rest) →
    rest ≠ [] → ∀ more, reader.run (input ++ more) = .ok (value, rest ++ more)

theorem EndsItself.isLocal {reader : Reader α} (ends : reader.EndsItself) : reader.IsLocal :=
  fun _ _ _ success _ more => ends success more

theorem EndsItself.map {reader : Reader α} (ends : reader.EndsItself) (transform : α → β) :
    (reader.map transform).EndsItself := by
  intro input value rest success more
  simp only [Reader.map] at success ⊢
  split at success
  · cases success
  · next found =>
    cases success
    simp only [ends found more]

theorem IsLocal.map {reader : Reader α} (isLocal : reader.IsLocal) (transform : α → β) :
    (reader.map transform).IsLocal := by
  intro input value rest success later more
  simp only [Reader.map] at success ⊢
  split at success
  · cases success
  · next found =>
    cases success
    simp only [isLocal found later more]

end Reader

/-! ## Blanks and words -/

theorem dropWhile_append_of_ne_nil {α : Type} {keep : α → Bool} {input : List α}
    (later : input.dropWhile keep ≠ []) (more : List α) :
    (input ++ more).dropWhile keep = input.dropWhile keep ++ more := by
  rw [List.dropWhile_append, if_neg]
  simpa using later

/-- A byte that is found behind blanks is found there too when more follows. -/
theorem skipSpace_append_of_cons {input rest : Bytes} {byte : UInt8}
    (shown : skipSpace input = byte :: rest) (more : Bytes) :
    skipSpace (input ++ more) = byte :: (rest ++ more) := by
  have later : input.dropWhile isSpace ≠ [] := by
    rw [← skipSpace, shown]
    exact List.cons_ne_nil byte rest
  rw [skipSpace, dropWhile_append_of_ne_nil later, ← skipSpace, shown, List.cons_append]

theorem word_append {letters input rest : Bytes} (success : word letters input = .ok rest)
    (more : Bytes) : word letters (input ++ more) = .ok (rest ++ more) := by
  induction letters generalizing input with
  | nil =>
      cases success
      rfl
  | cons letter letters hypothesis =>
      cases input with
      | nil =>
          cases success
      | cons byte input =>
          simp only [List.cons_append, word] at success ⊢
          split at success
          · next same =>
            rw [if_pos same]
            exact hypothesis success
          · cases success

/-! ## Texts between quotes -/

theorem readCode_append {input rest : Bytes} {code : Nat}
    (success : readCode input = .ok (code, rest)) (more : Bytes) :
    readCode (input ++ more) = .ok (code, rest ++ more) := by
  unfold readCode at success
  split at success
  · next first second third fourth after =>
    split at success
    · next digits =>
      cases success
      simp [readCode, digits]
    · cases success
  · cases success

theorem readPairMark_append {input rest : Bytes} (success : readPairMark input = .ok rest)
    (more : Bytes) : readPairMark (input ++ more) = .ok (rest ++ more) := by
  unfold readPairMark at success
  split at success
  · cases success
  · split at success <;> cases success
  · split at success
    · next mark =>
      cases success
      simp [readPairMark, mark]
    · cases success

theorem readLowSurrogate_append {high : Nat} {input value rest : Bytes}
    (success : readLowSurrogate high input = .ok (value, rest)) (more : Bytes) :
    readLowSurrogate high (input ++ more) = .ok (value, rest ++ more) := by
  unfold readLowSurrogate at success ⊢
  split at success
  · cases success
  · next marked =>
    simp only [readPairMark_append marked more]
    split at success
    · cases success
    · next found =>
      simp only [readCode_append found more]
      split at success
      · next isLow =>
        rcases Prod.mk.inj (Except.ok.inj success) with ⟨sameValue, sameRest⟩
        rw [if_pos isLow, sameValue, sameRest]
      · cases success

theorem readCodeEscape_append {input value rest : Bytes}
    (success : readCodeEscape input = .ok (value, rest)) (more : Bytes) :
    readCodeEscape (input ++ more) = .ok (value, rest ++ more) := by
  unfold readCodeEscape at success ⊢
  split at success
  · cases success
  · next found =>
    simp only [readCode_append found more]
    split at success
    · cases success
    · next notLow =>
      rw [if_neg notLow]
      split at success
      · next isHigh =>
        rw [if_pos isHigh]
        exact readLowSurrogate_append success more
      · next notHigh =>
        cases success
        rw [if_neg notHigh]

theorem skipCodeEscape_append {input value rest : Bytes}
    (success : skipCodeEscape input = .ok (value, rest)) (more : Bytes) :
    skipCodeEscape (input ++ more) = .ok (value, rest ++ more) := by
  unfold skipCodeEscape at success ⊢
  split at success
  · cases success
  · next found =>
    cases success
    simp only [readCode_append found more]

theorem readEscape_append {byCode : Bytes → Outcome Bytes}
    (goesOn : ∀ {input value rest : Bytes}, byCode input = .ok (value, rest) →
      ∀ more, byCode (input ++ more) = .ok (value, rest ++ more))
    {input value rest : Bytes} (success : readEscape byCode input = .ok (value, rest))
    (more : Bytes) : readEscape byCode (input ++ more) = .ok (value, rest ++ more) := by
  unfold readEscape at success
  split at success
  · cases success
  · split at success
    · next stands =>
      cases success
      simp [readEscape, stands]
    · next noLetter =>
      split at success
      · next isCode =>
        simp only [readEscape, List.cons_append, noLetter, if_pos isCode, goesOn success more]
      · cases success

theorem escape_endsItself : escape.EndsItself :=
  fun _ _ _ success more => readEscape_append readCodeEscape_append success more

theorem anyEscape_endsItself : anyEscape.EndsItself :=
  fun _ _ _ success more => readEscape_append skipCodeEscape_append success more

theorem readContent_append {escape : Reader Bytes} (ends : escape.EndsItself)
    {input content rest : Bytes} (success : readContent escape input = .ok (content, rest))
    (more : Bytes) : readContent escape (input ++ more) = .ok (content, rest ++ more) := by
  fun_induction readContent escape input generalizing content rest with
  | case1 => cases success
  | case2 =>
      cases success
      exact readContent_quote escape _
  | case3 => cases success
  | case4 => cases success
  | case5 after decoded between found shorter inner last read notQuote hypothesis =>
      cases success
      exact readContent_backslash (ends found more) (hypothesis read)
  | case6 => cases success
  | case7 => cases success
  | case8 byte after notQuote notBackslash notControl inner last read hypothesis =>
      cases success
      exact readContent_plain ⟨notQuote, notBackslash, notControl⟩ (hypothesis read)

theorem content_endsItself : content.EndsItself := by
  intro input value rest success more
  simp only [content] at success ⊢
  split at success
  · cases success
  · next found =>
    simp only [readContent_append escape_endsItself found more]
    split at success
    · cases success
      rfl
    · cases success

theorem skipContent_append {input rest : Bytes} (success : skipContent input = .ok rest)
    (more : Bytes) : skipContent (input ++ more) = .ok (rest ++ more) := by
  unfold skipContent at success ⊢
  split at success
  · cases success
  · next found =>
    cases success
    simp only [readContent_append anyEscape_endsItself found more]

/-! ## Numbers -/

namespace Number

theorem skipExponent_append_of_ne_nil {input rest : Bytes}
    (success : skipExponent input = .ok rest) (later : rest ≠ []) (more : Bytes) :
    skipExponent (input ++ more) = .ok (rest ++ more) := by
  have digits : ∀ {first : UInt8} {after : Bytes},
      (if isDigit first then Except.ok (after.dropWhile isDigit)
        else .error ReadError.badNumber) = .ok rest →
      (if isDigit first then Except.ok ((after ++ more).dropWhile isDigit)
        else .error ReadError.badNumber) = .ok (rest ++ more) := by
    intro first after success
    split at success
    · next digit =>
      cases success
      rw [if_pos digit, dropWhile_append_of_ne_nil later]
    · cases success
  cases input with
  | nil =>
      cases success
  | cons byte others =>
      by_cases sign : byte = minus ∨ byte = plus
      · cases others with
        | nil =>
            simp [skipExponent, sign] at success
        | cons first after =>
            simp only [skipExponent, List.cons_append, sign, if_true] at success ⊢
            exact digits success
      · simp only [skipExponent, List.cons_append, sign, if_false] at success ⊢
        exact digits success

theorem skipExponentPart_append_of_ne_nil {input rest : Bytes}
    (success : skipExponentPart input = .ok rest) (later : rest ≠ []) (more : Bytes) :
    skipExponentPart (input ++ more) = .ok (rest ++ more) := by
  cases input with
  | nil =>
      cases success
      exact absurd rfl later
  | cons byte others =>
      simp only [skipExponentPart, List.cons_append] at success ⊢
      split at success
      · next mark =>
        rw [if_pos mark]
        exact skipExponent_append_of_ne_nil success later more
      · next noMark =>
        cases success
        rw [if_neg noMark, List.cons_append]

theorem skipFractionPart_append_of_ne_nil {input rest : Bytes}
    (success : skipFractionPart input = .ok rest) (later : rest ≠ []) (more : Bytes) :
    skipFractionPart (input ++ more) = .ok (rest ++ more) := by
  cases input with
  | nil =>
      cases success
      exact absurd rfl later
  | cons byte others =>
      simp only [skipFractionPart, List.cons_append] at success ⊢
      split at success
      · next isPoint =>
        rw [if_pos isPoint]
        split at success
        · cases success
        · split at success
          · next first after digit =>
            -- What follows the digits is not empty, since the exponent leaves more than that.
            have between : after.dropWhile isDigit ≠ [] := by
              intro none
              rw [none] at success
              cases success
              exact later rfl
            rw [List.cons_append]
            simp only [digit, if_true, dropWhile_append_of_ne_nil between]
            exact skipExponentPart_append_of_ne_nil success later more
          · cases success
      · next noPoint =>
        rw [if_neg noPoint]
        exact skipExponentPart_append_of_ne_nil success later more

theorem skip_append_of_ne_nil {input rest : Bytes} (success : skip input = .ok rest)
    (later : rest ≠ []) (more : Bytes) : skip (input ++ more) = .ok (rest ++ more) := by
  have nonempty : ∀ {between : Bytes}, skipFractionPart between = .ok rest → between ≠ [] := by
    rintro _ success rfl
    cases success
    exact later rfl
  cases input with
  | nil =>
      cases success
  | cons first others =>
      simp only [skip, List.cons_append] at success ⊢
      split at success
      · next digit =>
        rw [if_pos digit]
        split at success
        · next isZero =>
          rw [if_pos isZero]
          split at success
          · cases success
          · next alone =>
            have same : (others ++ more).head? = others.head? :=
              List.head?_append_of_ne_nil others (nonempty success)
            rw [same, if_neg alone]
            exact skipFractionPart_append_of_ne_nil success later more
        · next notZero =>
          rw [if_neg notZero, dropWhile_append_of_ne_nil (nonempty success)]
          exact skipFractionPart_append_of_ne_nil success later more
      · cases success

end Number

/-! ## Values that are skipped -/

theorem skipColon_append {input rest : Bytes} (success : skipColon input = .ok rest)
    (more : Bytes) : skipColon (input ++ more) = .ok (rest ++ more) := by
  unfold skipColon at success
  split at success
  · cases success
  · next shown =>
    split at success
    · next isColon =>
      cases success
      simp only [skipColon, skipSpace_append_of_cons shown, isColon, if_true]
    · cases success

theorem skipName_append {input rest : Bytes} (success : skipName input = .ok rest)
    (more : Bytes) : skipName (input ++ more) = .ok (rest ++ more) := by
  unfold skipName at success
  split at success
  · cases success
  · next shown =>
    split at success
    · next isQuote =>
      split at success
      · cases success
      · next skipped =>
        simp only [skipName, skipSpace_append_of_cons shown, isQuote, if_true,
          skipContent_append skipped, skipColon_append success]
    · cases success

theorem skipToValue_append {enclosure : Enclosure} {input rest : Bytes}
    (success : skipToValue enclosure input = .ok rest) (more : Bytes) :
    skipToValue enclosure (input ++ more) = .ok (rest ++ more) := by
  cases enclosure with
  | list =>
      cases success
      rfl
  | object =>
      exact skipName_append success more

theorem skipClosing_append {isFresh : Bool} {enclosures remaining : List Enclosure}
    {input rest : Bytes} (success : skipClosing isFresh enclosures input = .ok (remaining, rest))
    (more : Bytes) :
    skipClosing isFresh enclosures (input ++ more) = .ok (remaining, rest ++ more) := by
  induction enclosures generalizing isFresh input with
  | nil =>
      cases success
      rfl
  | cons enclosure outer hypothesis =>
      simp only [skipClosing] at success ⊢
      split at success
      · cases success
      · next byte after shown =>
        simp only [skipSpace_append_of_cons shown]
        split at success
        · next closes =>
          rw [if_pos closes]
          exact hypothesis success
        · next stays =>
          rw [if_neg stays]
          split at success
          · next fresh =>
            rw [if_pos fresh]
            split at success
            · cases success
            · next skipped =>
              cases success
              simp only [← List.cons_append, skipToValue_append skipped]
          · next notFresh =>
            rw [if_neg notFresh]
            split at success
            · next isComma =>
              rw [if_pos isComma]
              split at success
              · cases success
              · next skipped =>
                cases success
                simp only [skipToValue_append skipped]
            · cases success

/-- What is skipped and is no bracket opens nothing, with more behind it or without. -/
theorem opensNothing_append {outcome extended : Except ReadError Bytes} {rest more : Bytes}
    {opened : Option Enclosure} (later : rest ≠ [])
    (success : (match outcome with
      | .error fault => .error fault
      | .ok after => .ok (none, after) : Except ReadError (Option Enclosure × Bytes)) =
        .ok (opened, rest)) :
    (∀ {after}, outcome = .ok after → after ≠ [] → extended = .ok (after ++ more)) →
      (match extended with
        | .error fault => .error fault
        | .ok after => .ok (none, after) : Except ReadError (Option Enclosure × Bytes)) =
          .ok (opened, rest ++ more) := by
  intro goesOn
  split at success
  · cases success
  · cases success
    rw [goesOn rfl later]

/-- A bracket or a value is skipped in the same way when more follows, if anything follows it. -/
theorem skipOpening_append_of_ne_nil {input rest : Bytes} {opened : Option Enclosure}
    (success : skipOpening input = .ok (opened, rest)) (later : rest ≠ []) (more : Bytes) :
    skipOpening (input ++ more) = .ok (opened, rest ++ more) := by
  simp only [skipOpening] at success ⊢
  split at success
  · cases success
  · next byte after shown =>
    simp only [skipSpace_append_of_cons shown]
    split at success
    · next isList =>
      cases success
      rw [if_pos isList]
    next notList =>
    rw [if_neg notList]
    split at success
    · next isObject =>
      cases success
      rw [if_pos isObject]
    next notObject =>
    rw [if_neg notObject]
    split at success
    · next isQuote =>
      rw [if_pos isQuote]
      exact opensNothing_append later success fun skipped _ => skipContent_append skipped more
    next notQuote =>
    rw [if_neg notQuote]
    split at success
    · next isMinus =>
      rw [if_pos isMinus]
      exact opensNothing_append later success fun skipped left =>
        Number.skip_append_of_ne_nil skipped left more
    next notMinus =>
    rw [if_neg notMinus]
    split at success
    · next digit =>
      rw [if_pos digit, ← List.cons_append]
      exact opensNothing_append later success fun skipped left =>
        Number.skip_append_of_ne_nil skipped left more
    next notDigit =>
    rw [if_neg notDigit]
    split at success
    · next isNull =>
      rw [if_pos isNull]
      exact opensNothing_append later success fun skipped _ => word_append skipped more
    next notNull =>
    rw [if_neg notNull]
    split at success
    · next isTrue =>
      rw [if_pos isTrue]
      exact opensNothing_append later success fun skipped _ => word_append skipped more
    next notTrue =>
    rw [if_neg notTrue]
    split at success
    · next isFalse =>
      rw [if_pos isFalse]
      exact opensNothing_append later success fun skipped _ => word_append skipped more
    · cases success

/-- A byte that follows a value also follows whatever is skipped before its end. -/
theorem ne_nil_of_length_le {rest input : Bytes} (later : rest ≠ [])
    (bound : rest.length ≤ input.length) : input ≠ [] := by
  rintro rfl
  exact later (List.eq_nil_of_length_eq_zero (Nat.eq_zero_of_le_zero bound))

theorem skipFrom_append_of_ne_nil {enclosures : List Enclosure} {input rest : Bytes}
    (success : skipFrom enclosures input = .ok rest) (later : rest ≠ []) (more : Bytes) :
    skipFrom enclosures (input ++ more) = .ok (rest ++ more) := by
  fun_induction skipFrom enclosures input with
  | case1 => cases success
  | case2 => cases success
  | case3 enclosures input opened between opens shorter after closed =>
      cases success
      have left := ne_nil_of_length_le later (length_skipClosing_le closed)
      rw [skipFrom_of_opening (skipOpening_append_of_ne_nil opens left more), skipOn,
        skipClosing_append closed]
  | case4 enclosures input opened between opens shorter inner outer after closed second hypothesis =>
      have left := ne_nil_of_length_le later (Nat.le_of_lt (length_skipFrom_lt success))
      have leftBefore := ne_nil_of_length_le left (length_skipClosing_le closed)
      rw [skipFrom_of_opening (skipOpening_append_of_ne_nil opens leftBefore more), skipOn,
        skipClosing_append closed]
      exact hypothesis success

theorem anyValue_isLocal : anyValue.IsLocal := by
  intro input value rest success later more
  simp only [anyValue] at success ⊢
  split at success
  · cases success
  · next skipped =>
    cases success
    simp only [skipFrom_append_of_ne_nil skipped later more]

/-! ## Texts and names -/

theorem text_endsItself : text.EndsItself := by
  intro input value rest success more
  simp only [text] at success ⊢
  split at success
  · cases success
  · next shown =>
    simp only [skipSpace_append_of_cons shown]
    split at success
    · next isQuote =>
      rw [if_pos isQuote]
      exact content_endsItself success more
    · cases success

theorem readChoice_append {α : Type} {known : List (String × α)} {input rest : Bytes}
    {meaning : α} (success : readChoice known input = .ok (meaning, rest)) (more : Bytes) :
    readChoice known (input ++ more) = .ok (meaning, rest ++ more) := by
  unfold readChoice at success ⊢
  split at success
  · cases success
  · next named =>
    simp only [content_endsItself named more]
    split at success
    · cases success
    · cases success
      rfl

theorem readNullAndClose_append {input rest : Bytes}
    (success : readNullAndClose input = .ok rest) (more : Bytes) :
    readNullAndClose (input ++ more) = .ok (rest ++ more) := by
  unfold readNullAndClose at success ⊢
  split at success
  · cases success
  · next shown =>
    simp only [skipSpace_append_of_cons shown]
    split at success
    · next isNull =>
      rw [if_pos isNull]
      split at success
      · cases success
      · next spelled =>
        simp only [word_append spelled]
        split at success
        · cases success
        · next closed =>
          simp only [skipSpace_append_of_cons closed]
          split at success
          · next closes =>
            cases success
            rw [if_pos closes]
          · cases success
    · cases success

theorem readTagged_append {α : Type} {known : List (String × α)} {input rest : Bytes}
    {meaning : α} (success : readTagged known input = .ok (meaning, rest)) (more : Bytes) :
    readTagged known (input ++ more) = .ok (meaning, rest ++ more) := by
  unfold readTagged at success ⊢
  split at success
  · cases success
  · next shown =>
    simp only [skipSpace_append_of_cons shown]
    split at success
    · next isQuote =>
      rw [if_pos isQuote]
      split at success
      · cases success
      · next named =>
        simp only [readChoice_append named]
        split at success
        · cases success
        · next separated =>
          simp only [skipColon_append separated]
          split at success
          · cases success
          · next closed =>
            cases success
            simp only [readNullAndClose_append closed]
    · split at success <;> cases success

theorem oneOf_endsItself {α : Type} (known : List (String × α)) : (oneOf known).EndsItself := by
  intro input value rest success more
  simp only [oneOf] at success ⊢
  split at success
  · cases success
  · next shown =>
    simp only [skipSpace_append_of_cons shown]
    split at success
    · next opens =>
      rw [if_pos opens]
      exact readTagged_append success more
    next named =>
    rw [if_neg named]
    split at success
    · next isQuote =>
      rw [if_pos isQuote]
      exact readChoice_append success more
    · cases success

end BundlePacker.Json
