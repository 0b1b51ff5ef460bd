import BundlePacker.CommandLine.Request
import BundlePacker.Invariant
import BundlePacker.Text.Utf8.Lemmas

/-!
# The grammar of command lines

A command line is a request when it gives each of the two settings once, in either order, and ends
there or in a separator.  The grammar says so without a reader: it lists the spellings of an option
with its value, and what may stand between them is nothing.

Reading goes through the arguments once and looks at the value of an option only when the next one
begins.  What has been read at any point comes to what is left once the pending option is stored,
and a reader that will succeed can only go on by one more occurrence of an option or come to the
end.  The main statement says that reading accepts exactly what the grammar spells, with the values
that were spelled.
-/

namespace BundlePacker.CommandLine

/-! ## The grammar -/

namespace Setting

/-- The option of a setting by its letter. -/
def shortOption (setting : Setting) : Bytes :=
  [Token.dash, setting.letter]

/-- The option of a setting by its long name. -/
def longOption (setting : Setting) : Bytes :=
  Token.dash :: Token.dash :: Utf8.ofString setting.longName

end Setting

/-- Whether an argument can be a value that stands apart from its option. -/
def StandsApart (argument : Bytes) : Prop :=
  argument.head? ≠ some Token.dash ∨ argument = [Token.dash]

/-- The arguments that give a setting a value. -/
inductive Occurrence (setting : Setting) (value : Bytes) : List Bytes → Prop
  /-- The value follows the letter in the next argument. -/
  | apartShort (apart : StandsApart value) :
      Occurrence setting value [setting.shortOption, value]
  /-- The value follows the long name in the next argument. -/
  | apartLong (apart : StandsApart value) :
      Occurrence setting value [setting.longOption, value]
  /-- The value directly follows the letter. -/
  | attached (plain : value.head? ≠ some Token.equals) :
      Occurrence setting value [setting.shortOption ++ value]
  /-- The value follows the letter and an equals sign. -/
  | equalsShort :
      Occurrence setting value [setting.shortOption ++ Token.equals :: value]
  /-- The value follows the long name and an equals sign. -/
  | equalsLong :
      Occurrence setting value [setting.longOption ++ Token.equals :: value]

/-- Whether nothing is asked for any more: the arguments end, at once or in a separator. -/
def IsEnding (arguments : List Bytes) : Prop :=
  arguments = [] ∨ arguments = [[Token.dash, Token.dash]]

/-- Whether arguments spell a request: both settings, once each, and nothing else. -/
structure Spells (arguments : List Bytes) (request : Request) : Prop where
  executable : request.executable ≠ ""
  version : request.version ≠ ""
  arranged : ∃ first second ending, arguments = first ++ second ++ ending ∧ IsEnding ending ∧
    ((Occurrence .executable (Utf8.ofString request.executable) first ∧
        Occurrence .version (Utf8.ofString request.version) second) ∨
      (Occurrence .version (Utf8.ofString request.version) first ∧
        Occurrence .executable (Utf8.ofString request.executable) second))

/-! ## Arguments and tokens -/

namespace Token

/-- The form of an argument that is a token. -/
inductive Form : Bytes → Token → Prop
  | separator : Form [dash, dash] .separator
  | longAlone {name : Bytes} (nonempty : name ≠ []) (clean : equals ∉ name) :
      Form (dash :: dash :: name) (.long name none)
  | longWith {name value : Bytes} (clean : equals ∉ name) :
      Form (dash :: dash :: (name ++ equals :: value)) (.long name (some value))
  | short {first : UInt8} {rest : Bytes} (differs : first ≠ dash) :
      Form (dash :: first :: rest) (.short first rest)
  | plain {argument : Bytes} (apart : StandsApart argument) :
      Form argument (.plain argument)

theorem ne_equals_of_clean {name : Bytes} (clean : equals ∉ name) :
    ∀ byte ∈ name, decide (byte ≠ equals) = true := by
  intro byte member
  rw [decide_eq_true_eq]
  rintro rfl
  exact clean member

theorem ofLong_of_clean {name : Bytes} (clean : equals ∉ name) :
    ofLong name = .long name none := by
  have kept := ne_equals_of_clean clean
  have taken : ((name ++ []).takeWhile fun byte => byte ≠ equals) = name := by
    rw [List.takeWhile_append_of_pos kept, List.takeWhile_nil, List.append_nil]
  have dropped : ((name ++ []).dropWhile fun byte => byte ≠ equals) = [] := by
    rw [List.dropWhile_append_of_pos kept, List.dropWhile_nil]
  rw [List.append_nil] at taken dropped
  simp only [ofLong, taken, dropped]

theorem ofLong_append {name value : Bytes} (clean : equals ∉ name) :
    ofLong (name ++ equals :: value) = .long name (some value) := by
  have kept := ne_equals_of_clean clean
  have taken : ((name ++ equals :: value).takeWhile fun byte => byte ≠ equals) = name := by
    rw [List.takeWhile_append_of_pos kept]
    simp
  have dropped : ((name ++ equals :: value).dropWhile fun byte => byte ≠ equals) =
      equals :: value := by
    rw [List.dropWhile_append_of_pos kept]
    simp
  simp only [ofLong, taken, dropped]

theorem form_ofLong {name : Bytes} (nonempty : name ≠ []) :
    Form (dash :: dash :: name) (ofLong name) := by
  by_cases signed : equals ∈ name
  · rcases List.eq_append_cons_of_mem signed with ⟨before, value, rfl, clean⟩
    rw [ofLong_append clean]
    exact .longWith clean
  · rw [ofLong_of_clean signed]
    exact .longAlone nonempty signed

theorem form_ofArgument (argument : Bytes) : Form argument (ofArgument argument) := by
  rcases argument with - | ⟨first, - | ⟨second, rest⟩⟩
  · exact .plain (.inl (by simp))
  · refine .plain ?_
    by_cases same : first = dash
    · exact .inr (by rw [same])
    · exact .inl (by simpa using same)
  · simp only [ofArgument]
    split
    · next differs =>
      exact .plain (.inl (by simpa using differs))
    next same =>
    rw [Decidable.not_not.mp same]
    split
    · next differs =>
      exact .short differs
    next again =>
    rw [Decidable.not_not.mp again]
    split
    · next empty =>
      subst empty
      exact .separator
    · next nonempty =>
      exact form_ofLong nonempty

/-- An argument of some form is the token of that form. -/
theorem Form.ofArgument_eq {argument : Bytes} {token : Token} (form : Form argument token) :
    ofArgument argument = token := by
  cases form with
  | separator =>
      rfl
  | longAlone nonempty clean =>
      simp [ofArgument, nonempty, ofLong_of_clean clean]
  | longWith clean =>
      simp [ofArgument, ofLong_append clean]
  | short differs =>
      simp [ofArgument, differs]
  | plain apart =>
      rcases argument with - | ⟨first, - | ⟨second, rest⟩⟩
      · rfl
      · rfl
      · have differs : first ≠ dash := by simpa [StandsApart] using apart
        simp [ofArgument, differs]

end Token

/-! ## What has been read -/

namespace Setting

@[simp]
theorem ofLetter?_letter (setting : Setting) : ofLetter? setting.letter = some setting := by
  cases setting <;> decide

theorem letter_of_ofLetter? {letter : UInt8} {setting : Setting}
    (known : ofLetter? letter = some setting) : setting.letter = letter := by
  simpa using List.find?_some known

@[simp]
theorem ofLongName?_longName (setting : Setting) :
    ofLongName? (Utf8.ofString setting.longName) = some setting := by
  cases setting <;> decide

theorem longName_of_ofLongName? {name : Bytes} {setting : Setting}
    (known : ofLongName? name = some setting) : Utf8.ofString setting.longName = name := by
  simpa using List.find?_some known

theorem letter_ne_dash (setting : Setting) : setting.letter ≠ Token.dash := by
  cases setting <;> decide

theorem equals_not_mem_longName (setting : Setting) :
    Token.equals ∉ Utf8.ofString setting.longName := by
  cases setting <;> decide

theorem longName_ne_nil (setting : Setting) : Utf8.ofString setting.longName ≠ [] := by
  cases setting <;> decide

theorem form_shortOption (setting : Setting) (others : Bytes) :
    Token.Form (setting.shortOption ++ others) (.short setting.letter others) :=
  .short setting.letter_ne_dash

theorem form_longOption (setting : Setting) :
    Token.Form setting.longOption (.long (Utf8.ofString setting.longName) none) :=
  .longAlone setting.longName_ne_nil setting.equals_not_mem_longName

theorem form_longOption_equals (setting : Setting) (value : Bytes) :
    Token.Form (setting.longOption ++ Token.equals :: value)
      (.long (Utf8.ofString setting.longName) (some value)) :=
  .longWith setting.equals_not_mem_longName

end Setting

namespace Progress

variable {progress settled next : Progress} {setting : Setting} {text : String}
  {request : Request} {arguments tokens rest : List Bytes}

@[simp]
theorem pending_set (progress : Progress) (value : String) (setting : Setting) :
    (progress.set value setting).pending = progress.pending := by
  cases setting <;> rfl

@[simp]
theorem get_set_self (progress : Progress) (value : String) (setting : Setting) :
    (progress.set value setting).get setting = some value := by
  cases setting <;> rfl

theorem get_set_of_ne {other : Setting} (differs : other ≠ setting) (value : String) :
    (progress.set value setting).get other = progress.get other := by
  cases setting with
  | executable =>
      cases other with
      | executable => exact absurd rfl differs
      | version => rfl
  | version =>
      cases other with
      | executable => rfl
      | version => exact absurd rfl differs

theorem ofString_eq_nil_iff (text : String) : Utf8.ofString text = [] ↔ text = "" := by
  refine ⟨fun same => Utf8.ofString_injective same, ?_⟩
  rintro rfl
  rfl

/-- A value is kept where none is kept yet, if it is well-formed text and not empty. -/
theorem store_eq_ok_iff {bytes : Bytes} :
    progress.store setting (some bytes) = .ok next ↔
      progress.get setting = none ∧
        ∃ text, bytes = Utf8.ofString text ∧ text ≠ "" ∧ next = progress.set text setting := by
  cases given : progress.get setting with
  | some value =>
      simp [store, given]
  | none =>
      cases read : Utf8.toString? bytes with
      | none =>
          have noText : ∀ text, bytes ≠ Utf8.ofString text := by
            rintro text rfl
            rw [Utf8.toString?_ofString] at read
            cases read
          simp [store, given, read, noText]
      | some text =>
          rw [Utf8.toString?_eq_some_iff] at read
          subst read
          simp only [store, given, Option.isSome_none, Bool.false_eq_true, if_false,
            Utf8.toString?_ofString, ofString_eq_nil_iff, true_and]
          constructor
          · intro stored
            split at stored
            · cases stored
            · next proper =>
              cases stored
              exact ⟨text, rfl, proper, rfl⟩
          · rintro ⟨other, same, proper, rfl⟩
            rw [← Utf8.ofString_injective same] at proper ⊢
            rw [if_neg proper]

/-- What has been settled has no pending option. -/
theorem pending_of_settle (settles : progress.settle = .ok settled) : settled.pending = none := by
  rw [settle] at settles
  split at settles
  · next idle =>
    cases settles
    exact idle
  · next setting value waiting =>
    cases value with
    | none =>
        cases settles
    | some bytes =>
        rcases store_eq_ok_iff.mp settles with ⟨-, text, -, -, rfl⟩
        rw [pending_set]

theorem settle_of_idle (idle : progress.pending = none) : progress.settle = .ok progress := by
  rw [settle, idle]

/-- An option that waits for its value can not be settled. -/
theorem settle_of_waiting (settled : Progress) (setting : Setting) :
    settle { settled with pending := some (setting, none) } = .error (.noValue setting) :=
  rfl

theorem settle_of_value (idle : settled.pending = none) (setting : Setting) (bytes : Bytes) :
    settle { settled with pending := some (setting, some bytes) } =
      settled.store setting (some bytes) := by
  rw [settle, ← idle]

theorem begin_of_settle (settles : progress.settle = .ok settled) (setting : Setting) :
    progress.begin setting none = .ok { settled with pending := some (setting, none) } := by
  rw [begin, settles]
  rfl

theorem begin_with_of_settle (settles : progress.settle = .ok settled) (setting : Setting)
    (bytes : Bytes) :
    progress.begin setting (some bytes) = settled.store setting (some bytes) := by
  rw [begin, settles]
  rfl

/-! ## Reading one occurrence -/

section Reading

variable {argument name value : Bytes} {first : UInt8} {others : Bytes}

theorem read_separator (rest : List Bytes) :
    progress.read ([Token.dash, Token.dash] :: rest) =
      match rest with
      | [] => .ok progress
      | extra :: _ => .error (.unknown (Utf8.lossy extra) none) := by
  cases rest <;> simp only [read.eq_def, Token.Form.separator.ofArgument_eq]

theorem read_long {value : Option Bytes} (form : Token.Form argument (.long name value)) :
    progress.read (argument :: rest) =
      (progress.readLong name value >>= fun next => next.read rest) := by
  rw [read.eq_def]
  simp only [form.ofArgument_eq]
  cases progress.readLong name value <;> rfl

theorem read_short (form : Token.Form argument (.short first others)) :
    progress.read (argument :: rest) =
      (progress.readShort first others >>= fun next => next.read rest) := by
  rw [read.eq_def]
  simp only [form.ofArgument_eq]
  cases progress.readShort first others <;> rfl

theorem read_plain (apart : StandsApart argument) :
    progress.read (argument :: rest) =
      (progress.readPlain argument >>= fun next => next.read rest) := by
  rw [read.eq_def]
  simp only [(Token.Form.plain apart).ofArgument_eq]
  cases progress.readPlain argument <;> rfl

end Reading

/-- The long option of a setting begins the setting. -/
theorem readLong_longName (setting : Setting) (value : Option Bytes) :
    progress.readLong (Utf8.ofString setting.longName) value = progress.begin setting value := by
  rw [readLong.eq_def, Setting.ofLongName?_longName]

theorem readShort_letter (setting : Setting) (others : Bytes) :
    progress.readShort setting.letter others = progress.begin setting (attachedValue others) := by
  rw [readShort, Setting.ofLetter?_letter]

/-- Any other long option ends the reading. -/
theorem readLong_ok {name : Bytes} {value : Option Bytes}
    (reads : progress.readLong name value = .ok next) :
    ∃ setting : Setting, name = Utf8.ofString setting.longName ∧
      progress.begin setting value = .ok next := by
  rw [readLong.eq_def] at reads
  split at reads
  · next setting known =>
    exact ⟨setting, (Setting.longName_of_ofLongName? known).symm, reads⟩
  · split at reads
    · split at reads
      · rw [askForHelp] at reads
        rcases exists_of_bind_eq_ok reads with ⟨_, -, impossible⟩
        cases impossible
      · cases reads
    · cases reads

theorem readShort_ok {first : UInt8} {others : Bytes}
    (reads : progress.readShort first others = .ok next) :
    ∃ setting : Setting, first = setting.letter ∧
      progress.begin setting (attachedValue others) = .ok next := by
  rw [readShort] at reads
  split at reads
  · next setting known =>
    exact ⟨setting, (Setting.letter_of_ofLetter? known).symm, reads⟩
  · split at reads
    · rw [askForHelp] at reads
      rcases exists_of_bind_eq_ok reads with ⟨_, -, impossible⟩
      cases impossible
    · cases reads

/-- A value that stands apart is taken by the option that waits for it. -/
theorem readPlain_of_waiting (settled : Progress) (setting : Setting) (argument : Bytes) :
    readPlain { settled with pending := some (setting, none) } argument =
      .ok { settled with pending := some (setting, some argument) } :=
  rfl

theorem attachedValue_of_plain {bytes : Bytes} (nonempty : bytes ≠ [])
    (plain : bytes.head? ≠ some Token.equals) : attachedValue bytes = some bytes := by
  rcases bytes with - | ⟨first, others⟩
  · exact absurd rfl nonempty
  · have differs : first ≠ Token.equals := by simpa using plain
    rw [attachedValue, if_neg differs]

/-- The value that is given in the same argument is stored at once. -/
theorem read_of_given {argument : Bytes} (settles : progress.settle = .ok settled)
    (begins : progress.read (argument :: rest) =
      (progress.begin setting (some (Utf8.ofString text)) >>= fun next => next.read rest))
    (stored : settled.store setting (some (Utf8.ofString text)) =
      .ok (settled.set text setting)) :
    progress.read (argument :: rest) = (settled.set text setting).read rest := by
  rw [begins, begin_with_of_settle settles, stored]
  rfl

/-- The value that stands apart becomes that of the pending option. -/
theorem read_of_apart {argument value : Bytes} (settles : progress.settle = .ok settled)
    (begins : progress.read (argument :: value :: rest) =
      (progress.begin setting none >>= fun next => next.read (value :: rest)))
    (apart : StandsApart value) :
    progress.read (argument :: value :: rest) =
      read { settled with pending := some (setting, some value) } rest := by
  rw [begins, begin_of_settle settles]
  show read _ (value :: rest) = _
  rw [read_plain apart, readPlain_of_waiting]
  rfl

/-- Once an occurrence has been read, its value is what is settled next. -/
theorem read_occurrence (settles : progress.settle = .ok settled)
    (free : settled.get setting = none) (proper : text ≠ "")
    (occurrence : Occurrence setting (Utf8.ofString text) tokens) (rest : List Bytes) :
    ∃ next : Progress, progress.read (tokens ++ rest) = next.read rest ∧
      next.settle = .ok (settled.set text setting) := by
  have idle := pending_of_settle settles
  have stored : settled.store setting (some (Utf8.ofString text)) =
      .ok (settled.set text setting) :=
    store_eq_ok_iff.mpr ⟨free, text, rfl, proper, rfl⟩
  have kept : (settled.set text setting).settle = .ok (settled.set text setting) :=
    settle_of_idle (by rw [pending_set, idle])
  have taken : settle { settled with pending := some (setting, some (Utf8.ofString text)) } =
      .ok (settled.set text setting) := by
    rw [settle_of_value idle, stored]
  cases occurrence with
  | apartShort apart =>
      refine ⟨_, read_of_apart settles ?_ apart, taken⟩
      have form := setting.form_shortOption []
      rw [List.append_nil] at form
      rw [read_short form, readShort_letter, attachedValue]
  | apartLong apart =>
      refine ⟨_, read_of_apart settles ?_ apart, taken⟩
      rw [read_long setting.form_longOption, readLong_longName]
  | attached plain =>
      refine ⟨_, read_of_given settles ?_ stored, kept⟩
      have nonempty : Utf8.ofString text ≠ [] := mt (ofString_eq_nil_iff text).mp proper
      rw [read_short (setting.form_shortOption _), readShort_letter,
        attachedValue_of_plain nonempty plain]
  | equalsShort =>
      refine ⟨_, read_of_given settles ?_ stored, kept⟩
      rw [read_short (setting.form_shortOption _), readShort_letter, attachedValue, if_pos rfl]
  | equalsLong =>
      refine ⟨_, read_of_given settles ?_ stored, kept⟩
      rw [read_long (setting.form_longOption_equals _), readLong_longName]

/-! ## What has to follow -/

/-- What is settled makes a request when it has both values. -/
theorem finish_eq_ok_iff (settles : progress.settle = .ok settled) :
    progress.finish = .ok request ↔
      settled.get .executable = some request.executable ∧
        settled.get .version = some request.version := by
  rcases request with ⟨wantedExecutable, wantedVersion⟩
  simp only [finish, settles, Bind.bind, Except.bind, get]
  cases settled.executable with
  | none =>
      simp
  | some executable =>
      cases settled.version with
      | none =>
          simp
      | some version =>
          simp

/-- Whether reading goes on to a request. -/
def LeadsTo (progress : Progress) (arguments : List Bytes) (request : Request) : Prop :=
  ∃ last : Progress, progress.read arguments = .ok last ∧ last.finish = .ok request

/-- How an argument is read on the way to a request. -/
inductive Reads (progress : Progress) (argument : Bytes) (rest : List Bytes)
    (request : Request) : Prop
  /-- The separator ends the arguments. -/
  | separator (shape : argument = [Token.dash, Token.dash]) (last : rest = [])
      (finishes : progress.finish = .ok request)
  /-- An option begins, by its long name or by its letter. -/
  | option {setting : Setting} {value : Option Bytes} {next : Progress}
      (spelled :
        (argument = setting.longOption ∧ value = none) ∨
          (∃ bytes, argument = setting.longOption ++ Token.equals :: bytes ∧
            value = some bytes) ∨
          ∃ others, argument = setting.shortOption ++ others ∧ value = attachedValue others)
      (begins : progress.begin setting value = .ok next) (leads : next.LeadsTo rest request)
  /-- The option that waits takes its value. -/
  | value {setting : Setting} (apart : StandsApart argument)
      (waiting : progress.pending = some (setting, none))
      (leads : LeadsTo { progress with pending := some (setting, some argument) } rest request)

theorem readPlain_ok {argument : Bytes} (reads : progress.readPlain argument = .ok next) :
    ∃ setting, progress.pending = some (setting, none) ∧
      next = { progress with pending := some (setting, some argument) } := by
  rw [readPlain] at reads
  split at reads
  · next setting waiting =>
    cases reads
    exact ⟨setting, waiting, rfl⟩
  · cases reads

theorem LeadsTo.reads {argument : Bytes} (leads : progress.LeadsTo (argument :: rest) request) :
    Reads progress argument rest request := by
  rcases leads with ⟨last, reads, finishes⟩
  have form := Token.form_ofArgument argument
  generalize Token.ofArgument argument = token at form
  cases form with
  | separator =>
      rw [read_separator] at reads
      cases rest with
      | nil =>
          cases reads
          exact .separator rfl rfl finishes
      | cons extra others =>
          cases reads
  | @longAlone name nonempty clean =>
      rw [read_long (.longAlone nonempty clean)] at reads
      rcases exists_of_bind_eq_ok reads with ⟨next, taken, later⟩
      rcases readLong_ok taken with ⟨setting, rfl, begins⟩
      exact .option (.inl ⟨rfl, rfl⟩) begins ⟨last, later, finishes⟩
  | @longWith name value clean =>
      rw [read_long (.longWith clean)] at reads
      rcases exists_of_bind_eq_ok reads with ⟨next, taken, later⟩
      rcases readLong_ok taken with ⟨setting, rfl, begins⟩
      exact .option (.inr (.inl ⟨value, rfl, rfl⟩)) begins ⟨last, later, finishes⟩
  | @short first others differs =>
      rw [read_short (.short differs)] at reads
      rcases exists_of_bind_eq_ok reads with ⟨next, taken, later⟩
      rcases readShort_ok taken with ⟨setting, rfl, begins⟩
      exact .option (.inr (.inr ⟨others, rfl, rfl⟩)) begins ⟨last, later, finishes⟩
  | plain apart =>
      rw [read_plain apart] at reads
      rcases exists_of_bind_eq_ok reads with ⟨next, taken, later⟩
      rcases readPlain_ok taken with ⟨setting, waiting, rfl⟩
      exact .value apart waiting ⟨last, later, finishes⟩

theorem LeadsTo.finishes (leads : progress.LeadsTo [] request) :
    progress.finish = .ok request := by
  rcases leads with ⟨last, reads, finishes⟩
  rw [read.eq_def] at reads
  cases reads
  exact finishes

theorem exists_settle_of_finish (finishes : progress.finish = .ok request) :
    ∃ settled, progress.settle = .ok settled := by
  rcases exists_of_bind_eq_ok finishes with ⟨settled, settles, -⟩
  exact ⟨settled, settles⟩

/-- A value that has been taken is settled on the way to a request. -/
theorem LeadsTo.settles (leads : progress.LeadsTo arguments request)
    (taken : ∀ setting, progress.pending ≠ some (setting, none)) :
    ∃ settled, progress.settle = .ok settled := by
  cases arguments with
  | nil =>
      exact exists_settle_of_finish leads.finishes
  | cons argument rest =>
      cases leads.reads with
      | separator shape last finishes =>
          exact exists_settle_of_finish finishes
      | option spelled begins later =>
          rcases exists_of_bind_eq_ok begins with ⟨settled, settles, -⟩
          exact ⟨settled, settles⟩
      | value apart waiting later =>
          exact absurd waiting (taken _)

/-- How what has been settled goes on to a request. -/
inductive GoesOn (settled : Progress) (arguments : List Bytes) (request : Request) : Prop
  /-- Nothing is missing and nothing follows. -/
  | ends (ending : IsEnding arguments)
      (executable : settled.get .executable = some request.executable)
      (version : settled.get .version = some request.version)
  /-- A setting that has no value yet is given one. -/
  | gives {setting : Setting} {text : String} {tokens rest : List Bytes} {next : Progress}
      (shape : arguments = tokens ++ rest)
      (occurrence : Occurrence setting (Utf8.ofString text) tokens) (proper : text ≠ "")
      (free : settled.get setting = none)
      (settles : next.settle = .ok (settled.set text setting))
      (leads : next.LeadsTo rest request)

theorem goesOn_of_stored {value : Bytes} (idle : settled.pending = none)
    (stored : settled.store setting (some value) = .ok next)
    (occurrence : Occurrence setting value tokens) (leads : next.LeadsTo rest request) :
    GoesOn settled (tokens ++ rest) request := by
  rcases store_eq_ok_iff.mp stored with ⟨free, text, rfl, proper, rfl⟩
  exact .gives rfl occurrence proper free (settle_of_idle (by rw [pending_set, idle])) leads

/-- After an option alone its value has to follow. -/
theorem goesOn_of_waiting {argument : Bytes} (idle : settled.pending = none)
    (leads : LeadsTo { settled with pending := some (setting, none) } rest request)
    (occurs : ∀ value, StandsApart value → Occurrence setting value [argument, value]) :
    GoesOn settled (argument :: rest) request := by
  have stuck : ∀ other,
      settle { settled with pending := some (setting, none) } ≠ .ok other := by
    intro other settles
    rw [settle_of_waiting] at settles
    cases settles
  cases rest with
  | nil =>
      rcases exists_settle_of_finish leads.finishes with ⟨other, settles⟩
      exact absurd settles (stuck other)
  | cons value others =>
      cases leads.reads with
      | separator shape last finishes =>
          rcases exists_settle_of_finish finishes with ⟨other, settles⟩
          exact absurd settles (stuck other)
      | option spelled begins later =>
          rcases exists_of_bind_eq_ok begins with ⟨other, settles, -⟩
          exact absurd settles (stuck other)
      | value apart waiting later =>
          cases waiting
          rcases later.settles (by simp) with ⟨next, settles⟩
          have stored := settles
          rw [settle_of_value idle] at stored
          rcases store_eq_ok_iff.mp stored with ⟨free, text, rfl, proper, rfl⟩
          show GoesOn settled ([argument, Utf8.ofString text] ++ others) request
          exact .gives rfl (occurs _ apart) proper free settles later

theorem attachedValue_cases (others : Bytes) :
    (others = [] ∧ attachedValue others = none) ∨
      (∃ bytes, others = Token.equals :: bytes ∧ attachedValue others = some bytes) ∨
      (others.head? ≠ some Token.equals ∧ attachedValue others = some others) := by
  rcases others with - | ⟨first, bytes⟩
  · exact .inl ⟨rfl, rfl⟩
  · by_cases signed : first = Token.equals
    · exact .inr (.inl ⟨bytes, by rw [signed], by rw [attachedValue, if_pos signed]⟩)
    · exact .inr (.inr ⟨by simpa using signed, by rw [attachedValue, if_neg signed]⟩)

/-- What has been settled and goes on to a request does so by an occurrence or ends. -/
theorem LeadsTo.goesOn (leads : progress.LeadsTo arguments request)
    (settles : progress.settle = .ok settled) : GoesOn settled arguments request := by
  have idle := pending_of_settle settles
  cases arguments with
  | nil =>
      rcases (finish_eq_ok_iff settles).mp leads.finishes with ⟨executable, version⟩
      exact .ends (.inl rfl) executable version
  | cons argument rest =>
      cases leads.reads with
      | separator shape last finishes =>
          rcases (finish_eq_ok_iff settles).mp finishes with ⟨executable, version⟩
          exact .ends (.inr (by rw [shape, last])) executable version
      | @option setting value next spelled begins later =>
          cases value with
          | none =>
              rw [begin_of_settle settles] at begins
              cases begins
              refine goesOn_of_waiting idle later ?_
              rcases spelled with ⟨rfl, -⟩ | ⟨_, -, impossible⟩ | ⟨others, rfl, same⟩
              · exact fun _ => .apartLong
              · cases impossible
              · rcases attachedValue_cases others with ⟨rfl, -⟩ | ⟨_, -, given⟩ | ⟨-, given⟩
                · rw [List.append_nil]
                  exact fun _ => .apartShort
                · cases same.trans given
                · cases same.trans given
          | some bytes =>
              rw [begin_with_of_settle settles] at begins
              suffices occurrence : Occurrence setting bytes [argument] from
                goesOn_of_stored idle begins occurrence later
              rcases spelled with ⟨-, impossible⟩ | ⟨_, rfl, same⟩ | ⟨others, rfl, same⟩
              · cases impossible
              · cases same
                exact .equalsLong
              · rcases attachedValue_cases others with ⟨-, given⟩ | ⟨_, rfl, given⟩ | ⟨plain, given⟩
                · cases same.trans given
                · cases same.trans given
                  exact .equalsShort
                · cases same.trans given
                  exact .attached plain
      | value apart waiting later =>
          rw [settle, waiting] at settles
          cases settles

theorem settle_blank : blank.settle = .ok blank :=
  rfl

/-- Two occurrences of different settings are read into a request. -/
theorem leadsTo_of_occurrences {other : Setting} {first second ending : List Bytes}
    {firstText secondText : String} (differs : other ≠ setting)
    (firstProper : firstText ≠ "") (secondProper : secondText ≠ "")
    (firstOccurs : Occurrence setting (Utf8.ofString firstText) first)
    (secondOccurs : Occurrence other (Utf8.ofString secondText) second)
    (ends : IsEnding ending)
    (executable : ((blank.set firstText setting).set secondText other).get .executable =
      some request.executable)
    (version : ((blank.set firstText setting).set secondText other).get .version =
      some request.version) :
    blank.LeadsTo (first ++ second ++ ending) request := by
  have free : blank.get setting = none := by cases setting <;> rfl
  rcases read_occurrence settle_blank free firstProper firstOccurs (second ++ ending) with
    ⟨middle, readFirst, settlesFirst⟩
  have freeOther : (blank.set firstText setting).get other = none := by
    rw [get_set_of_ne differs]
    cases other <;> rfl
  rcases read_occurrence settlesFirst freeOther secondProper secondOccurs ending with
    ⟨last, readSecond, settlesSecond⟩
  refine ⟨last, ?_, (finish_eq_ok_iff settlesSecond).mpr ⟨executable, version⟩⟩
  rw [List.append_assoc, readFirst, readSecond]
  rcases ends with rfl | rfl
  · rfl
  · exact read_separator []

/-- On the way to a request both settings are given, and then the arguments end. -/
theorem LeadsTo.occurrences (leads : blank.LeadsTo arguments request) :
    ∃ setting other first second ending firstText secondText,
      other ≠ setting ∧ arguments = first ++ second ++ ending ∧ IsEnding ending ∧
      firstText ≠ "" ∧ secondText ≠ "" ∧
      Occurrence setting (Utf8.ofString firstText) first ∧
      Occurrence other (Utf8.ofString secondText) second ∧
      ((blank.set firstText setting).set secondText other).get .executable =
        some request.executable ∧
      ((blank.set firstText setting).set secondText other).get .version =
        some request.version := by
  cases leads.goesOn settle_blank with
  | ends ending executable version =>
      cases executable
  | @gives setting firstText first rest middle shape firstOccurs firstProper _ settles leads =>
      cases leads.goesOn settles with
      | ends ending executable version =>
          cases setting <;> simp [get, set, blank] at executable version
      | @gives other secondText second ending last shapeLast secondOccurs secondProper free
          settlesLast leadsLast =>
          have differs : other ≠ setting := by
            rintro rfl
            rw [get_set_self] at free
            cases free
          cases leadsLast.goesOn settlesLast with
          | ends ends executable version =>
              refine ⟨setting, other, first, second, ending, firstText, secondText, differs, ?_,
                ends, firstProper, secondProper, firstOccurs, secondOccurs, executable, version⟩
              rw [shape, shapeLast, List.append_assoc]
          | @gives third _ _ _ _ _ _ _ freeThird =>
              -- Both settings have a value, so none is left for a third occurrence.
              exfalso
              cases setting <;> cases other <;> cases third <;>
                simp [get, set] at freeThird differs

end Progress

theorem Request.ofArguments_eq_ok_iff {arguments : List Bytes} {request : Request} :
    Request.ofArguments arguments = .ok request ↔
      Progress.blank.LeadsTo arguments request := by
  constructor
  · intro made
    rcases exists_of_bind_eq_ok made with ⟨last, reads, finishes⟩
    exact ⟨last, reads, finishes⟩
  · rintro ⟨last, reads, finishes⟩
    rw [Request.ofArguments, reads]
    exact finishes

/--
The arguments after the first one make a request exactly when they spell it: both settings are
given once, in either order and in any of their spellings, and nothing follows but a separator.
-/
theorem Request.ofArguments_tail_eq_ok_iff (commandLine : List Bytes) (request : Request) :
    Request.ofArguments commandLine.tail = .ok request ↔ Spells commandLine.tail request := by
  rw [Request.ofArguments_eq_ok_iff]
  constructor
  · intro leads
    rcases leads.occurrences with
      ⟨setting, other, first, second, ending, firstText, secondText, differs, shape, ends,
        firstProper, secondProper, firstOccurs, secondOccurs, executable, version⟩
    cases setting with
    | executable =>
        cases other with
        | executable =>
            exact absurd rfl differs
        | version =>
            cases executable
            cases version
            exact ⟨firstProper, secondProper, first, second, ending, shape, ends,
              .inl ⟨firstOccurs, secondOccurs⟩⟩
    | version =>
        cases other with
        | version =>
            exact absurd rfl differs
        | executable =>
            cases executable
            cases version
            exact ⟨secondProper, firstProper, first, second, ending, shape, ends,
              .inr ⟨firstOccurs, secondOccurs⟩⟩
  · rintro ⟨executable, version, first, second, ending, shape, ends, order⟩
    rw [shape]
    rcases order with ⟨firstOccurs, secondOccurs⟩ | ⟨firstOccurs, secondOccurs⟩
    · exact Progress.leadsTo_of_occurrences (by decide) executable version firstOccurs
        secondOccurs ends rfl rfl
    · exact Progress.leadsTo_of_occurrences (by decide) version executable firstOccurs
        secondOccurs ends rfl rfl

end BundlePacker.CommandLine
