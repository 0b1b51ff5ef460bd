import BundlePacker.Text.Utf8

/-!
# What a terminal would show

A text that comes from outside may hold control characters, and an escape character may begin a
control sequence: a few characters that a terminal obeys and does not show.  `visible` takes both
away.  It reads one character at a time and remembers in which kind of sequence it stands; white
space is kept, and it ends the sequences that an unfinished one is most likely to be.  The lemmas at
the end say what is left: only characters that a terminal shows, and all of a text that holds no
others.
-/

namespace BundlePacker.Text.Terminal

/-- What a character can do to a terminal. -/
inductive Kind where
  /-- A control character that ends every sequence. -/
  | cancel
  /-- The control character that begins a sequence. -/
  | escape
  /-- A control character that is white space. -/
  | layout
  /-- The control character that ends a command. -/
  | bell
  /-- A control character with no effect here. -/
  | silent
  /-- A sign or space that stands between the parameters and the end of a sequence. -/
  | intermediate
  /-- A digit or sign that stands in the parameters of a sequence. -/
  | parameter
  /-- A letter or sign that can end a sequence. -/
  | final
  /-- A character beyond ASCII. -/
  | beyond
deriving DecidableEq

/-- The kind of a character. -/
def Kind.of (character : Char) : Kind :=
  let code := character.toNat
  if code = 0x18 ∨ code = 0x1A then cancel
  else if code = 0x1B then escape
  else if code = 0x09 ∨ code = 0x0A ∨ code = 0x0C ∨ code = 0x0D then layout
  else if code = 0x07 then bell
  else if code < 0x20 ∨ code = 0x7F then silent
  else if code < 0x30 then intermediate
  else if code < 0x40 then parameter
  else if code < 0x7F then final
  else beyond

/-- Whether characters of a kind are shown outside of sequences. -/
def Kind.isShown : Kind → Bool
  | layout | intermediate | parameter | final | beyond => true
  | cancel | escape | bell | silent => false

/-- Where in a text a terminal stands. -/
inductive Mode where
  /-- Outside of sequences. -/
  | plain
  /-- After an escape character. -/
  | escape
  /-- In a short sequence, behind its first sign. -/
  | escapeIntermediate
  /-- In a control sequence, as those for colours are. -/
  | control
  /-- At the head of a text for a device. -/
  | device
  /-- In the parameters of a text for a device. -/
  | deviceParameters
  /-- Behind the parameters of a text for a device. -/
  | deviceIntermediate
  /-- In a text that is not for the screen. -/
  | hidden
  /-- In a command to the system, as those for titles are. -/
  | command
deriving DecidableEq

namespace Mode

/-- Whether white space is shown here, and ends the sequence if there is one. -/
def showsLayout : Mode → Bool
  | plain | escape | escapeIntermediate | control => true
  | device | deviceParameters | deviceIntermediate | hidden | command => false

/-- Whether a character is shown here. -/
def shows (mode : Mode) (character : Char) : Bool :=
  match Kind.of character with
  | .layout => mode.showsLayout
  | kind => kind.isShown && mode = plain

/-- The byte that ends a text that is not for the screen. -/
def terminator : UInt8 :=
  0x9C

/-- The kind of sequence that a character after an escape character chooses. -/
def chosenBy (character : Char) : Mode :=
  match character with
  | '[' => control
  | ']' => command
  | 'P' => device
  | 'X' | '^' | '_' => hidden
  | _ => plain

/-- Where a terminal stands after a printable character of ASCII. -/
def afterPrintable (mode : Mode) (character : Char) : Mode :=
  match mode, Kind.of character with
  | escape, .intermediate => escapeIntermediate
  | escape, _ => chosenBy character
  | escapeIntermediate, .intermediate => escapeIntermediate
  | control, .intermediate | control, .parameter => control
  | device, .intermediate | deviceParameters, .intermediate => deviceIntermediate
  | deviceIntermediate, .intermediate => deviceIntermediate
  | device, .parameter => deviceParameters
  | deviceParameters, .parameter => if character < '<' then deviceParameters else hidden
  | device, _ | deviceParameters, _ | deviceIntermediate, _ => hidden
  | hidden, _ => hidden
  | command, _ => command
  | plain, _ | escapeIntermediate, _ | control, _ => plain

/-- Where a terminal stands after a character. -/
def after (mode : Mode) (character : Char) : Mode :=
  match Kind.of character with
  | .cancel => plain
  | .escape => escape
  | .layout => if mode.showsLayout then plain else mode
  | .bell => if mode = command then plain else mode
  | .silent => mode
  | .beyond => if mode = hidden ∧ terminator ∈ Utf8.encodeChar character then plain else mode
  | .intermediate | .parameter | .final => mode.afterPrintable character

end Mode

/-- The characters that are shown, from some place in a text. -/
def visibleFrom : Mode → List Char → List Char
  | _, [] => []
  | mode, character :: rest =>
    let later := visibleFrom (mode.after character) rest
    if mode.shows character then character :: later else later

/-- A text as a terminal shows it, without control characters and control sequences. -/
def visible (text : String) : String :=
  String.ofList (visibleFrom .plain text.toList)

/-! ## What is left -/

/-- Whether a character is shown outside of sequences. -/
def IsShown (character : Char) : Prop :=
  (Kind.of character).isShown = true

theorem isShown_of_shows {mode : Mode} {character : Char}
    (shown : mode.shows character = true) : IsShown character := by
  unfold IsShown
  unfold Mode.shows at shown
  generalize Kind.of character = kind at shown ⊢
  cases kind <;> simp_all [Kind.isShown]

theorem shows_plain {character : Char} (shown : IsShown character) :
    Mode.plain.shows character = true := by
  unfold IsShown at shown
  unfold Mode.shows
  generalize Kind.of character = kind at shown ⊢
  cases kind <;> simp_all [Kind.isShown, Mode.showsLayout]

/-- Outside of sequences a character that is shown begins none. -/
theorem after_plain {character : Char} (shown : IsShown character) :
    Mode.plain.after character = .plain := by
  unfold IsShown at shown
  unfold Mode.after Mode.afterPrintable
  generalize Kind.of character = kind at shown ⊢
  cases kind <;> simp_all [Kind.isShown, Mode.showsLayout]

/-- Only characters that a terminal shows are left. -/
theorem isShown_of_mem_visibleFrom {mode : Mode} {text : List Char} {character : Char}
    (member : character ∈ visibleFrom mode text) : IsShown character := by
  induction text generalizing mode with
  | nil => simp [visibleFrom] at member
  | cons first rest hypothesis =>
    simp only [visibleFrom] at member
    split at member
    · next shown =>
      rcases List.mem_cons.mp member with same | inside
      · subst same
        exact isShown_of_shows shown
      · exact hypothesis inside
    · exact hypothesis member

/-- A text of characters that a terminal shows stays as it is. -/
theorem visibleFrom_plain {text : List Char} (shown : ∀ character ∈ text, IsShown character) :
    visibleFrom .plain text = text := by
  induction text with
  | nil => rfl
  | cons first rest hypothesis =>
    have here := shown first (List.mem_cons_self ..)
    have later := hypothesis fun character member => shown character (List.mem_cons_of_mem _ member)
    simp [visibleFrom, shows_plain here, after_plain here, later]

/-- What is shown of a text is shown whole. -/
theorem visible_visible (text : String) : visible (visible text) = visible text := by
  simp only [visible, String.toList_ofList]
  rw [visibleFrom_plain fun _ => isShown_of_mem_visibleFrom]

end BundlePacker.Text.Terminal
