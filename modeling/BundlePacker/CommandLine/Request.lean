import BundlePacker.Path
import BundlePacker.Text.Similarity

/-!
# Command lines

A command line asks for one bundle: it names an executable and a version, each by an option with a
value, in either order.  The value stands in the next argument, after an equals sign, or directly
after the letter of the option.  Reading goes from left to right; an option whose value stands
apart is pending until the next option begins, and it is only then, or at the end, that its value is
looked at.
-/

namespace BundlePacker.CommandLine

/-- What a command line can set. -/
inductive Setting where
  | executable
  | version
deriving DecidableEq

namespace Setting

/-- Every setting, in the order in which usage texts list them. -/
def all : List Setting :=
  [executable, version]

/-- The long name of a setting's option. -/
def longName : Setting → String
  | executable => "executable"
  | version => "version"

/-- The word for a setting's value. -/
def placeholder : Setting → String
  | executable => "PATH"
  | version => "VERSION"

/-- The letter of a setting's option. -/
def letter : Setting → UInt8
  | executable => 0x65
  | version => 0x76

/-- The setting of a long name. -/
def ofLongName? (name : Bytes) : Option Setting :=
  all.find? fun setting => Utf8.ofString setting.longName = name

/-- The setting of a letter. -/
def ofLetter? (letter : UInt8) : Option Setting :=
  all.find? fun setting => setting.letter = letter

end Setting

/-- What a command line asks for. -/
structure Request where
  executable : String
  version : String
deriving DecidableEq

/-- Why a command line is not a request. -/
inductive Refusal where
  /-- It asks for help instead. -/
  | helpWanted
  /-- Settings are missing. -/
  | missing (settings : List Setting)
  /-- A setting has no value, or an empty one. -/
  | noValue (setting : Setting)
  /-- A setting is given more than once. -/
  | repeated (setting : Setting)
  /-- A value is not well-formed text. -/
  | notText
  /-- An argument has no meaning; a known option may be similar to it. -/
  | unknown (argument : String) (similar : Option String)
  /-- The option for help has a value. -/
  | surplusValue (value : String)
deriving DecidableEq

/-- What an argument is by its form. -/
inductive Token where
  /-- Two dashes and nothing else. -/
  | separator
  /-- Two dashes, a name, and a value after the first equals sign if there is one. -/
  | long (name : Bytes) (value : Option Bytes)
  /-- A dash and what follows it. -/
  | short (first : UInt8) (rest : Bytes)
  /-- Anything else, a lone dash included. -/
  | plain (argument : Bytes)
deriving DecidableEq

namespace Token

abbrev dash : UInt8 := 0x2D

abbrev equals : UInt8 := 0x3D

/-- The token for what follows two dashes. -/
def ofLong (argument : Bytes) : Token :=
  let name := argument.takeWhile fun byte => byte ≠ equals
  match argument.dropWhile fun byte => byte ≠ equals with
  | [] => .long name none
  | _ :: value => .long name (some value)

/-- The token that an argument is. -/
def ofArgument (argument : Bytes) : Token :=
  match argument with
  | [] => .plain []
  | [byte] => .plain [byte]
  | first :: second :: rest =>
    if first ≠ dash then .plain argument
    else if second ≠ dash then .short second rest
    else if rest = [] then .separator
    else ofLong rest

end Token

/-- What has been read of a command line. -/
structure Progress where
  executable : Option String
  version : Option String
  /-- The option whose value stands apart, with the value once it has been read. -/
  pending : Option (Setting × Option Bytes)
deriving DecidableEq

namespace Progress

/-- Nothing has been read. -/
def blank : Progress :=
  ⟨none, none, none⟩

/-- The value that a setting has. -/
def get (progress : Progress) : Setting → Option String
  | .executable => progress.executable
  | .version => progress.version

/-- Give a setting a value. -/
def set (progress : Progress) (value : String) : Setting → Progress
  | .executable => { progress with executable := some value }
  | .version => { progress with version := some value }

/-- Look at the value of a setting and keep it. -/
def store (progress : Progress) (setting : Setting) : Option Bytes → Except Refusal Progress
  | none => .error (.noValue setting)
  | some bytes =>
    if (progress.get setting).isSome then .error (.repeated setting)
    else
      match Utf8.toString? bytes with
      | none => .error .notText
      | some value =>
        if bytes = [] then .error (.noValue setting) else .ok (progress.set value setting)

/-- Store the pending option, if there is one. -/
def settle (progress : Progress) : Except Refusal Progress :=
  match progress.pending with
  | none => .ok progress
  | some (setting, value) => { progress with pending := none }.store setting value

/-- Begin an option: its value stands in the same argument or apart. -/
def begin (progress : Progress) (setting : Setting) (value : Option Bytes) :
    Except Refusal Progress := do
  let settled ← progress.settle
  match value with
  | some bytes => settled.store setting (some bytes)
  | none => .ok { settled with pending := some (setting, none) }

/-- The long name of the option for help. -/
def helpName : String :=
  "help"

/-- The letter of the option for help. -/
def helpLetter : UInt8 :=
  0x68

/-- The long names of all options. -/
def longNames : List String :=
  Setting.all.map Setting.longName ++ [helpName]

/-- Ask for help, unless the pending option is at fault. -/
def askForHelp (progress : Progress) : Except Refusal Progress := do
  let _ ← progress.settle
  .error .helpWanted

/-- Read an option by its long name. -/
def readLong (progress : Progress) (name : Bytes) (value : Option Bytes) :
    Except Refusal Progress :=
  match Setting.ofLongName? name with
  | some setting => progress.begin setting value
  | none =>
    if name = Utf8.ofString helpName then
      match value with
      | none => progress.askForHelp
      | some bytes => .error (.surplusValue (Utf8.lossy bytes))
    else
      let shown := Utf8.lossy name
      .error (.unknown ("--" ++ shown) (Text.Similarity.closest? shown.toList longNames))

/-- The value that directly follows the letter of an option, less one equals sign. -/
def attachedValue : Bytes → Option Bytes
  | [] => none
  | byte :: rest => if byte = Token.equals then some rest else some (byte :: rest)

/-- What is shown of an unknown letter: the letter, or everything when it is not well-formed. -/
def shownLetter (bytes : Bytes) : String :=
  match Utf8.pieces bytes with
  | some character :: _ => String.ofList ['-', character]
  | _ => "-" ++ Utf8.lossy bytes

/-- Read an option by its letter. -/
def readShort (progress : Progress) (first : UInt8) (rest : Bytes) : Except Refusal Progress :=
  match Setting.ofLetter? first with
  | some setting => progress.begin setting (attachedValue rest)
  | none =>
    if first = helpLetter then progress.askForHelp
    else .error (.unknown (shownLetter (first :: rest)) none)

/-- Read an argument that is no option: the value of the option that waits for one. -/
def readPlain (progress : Progress) (argument : Bytes) : Except Refusal Progress :=
  match progress.pending with
  | some (setting, none) => .ok { progress with pending := some (setting, some argument) }
  | _ => .error (.unknown (Utf8.lossy argument) none)

/-- Read arguments from left to right.  What follows the separator has no meaning. -/
def read (progress : Progress) : List Bytes → Except Refusal Progress
  | [] => .ok progress
  | argument :: rest =>
    match Token.ofArgument argument with
    | .separator =>
      match rest with
      | [] => .ok progress
      | extra :: _ => .error (.unknown (Utf8.lossy extra) none)
    | .long name value =>
      match progress.readLong name value with
      | .error refusal => .error refusal
      | .ok next => next.read rest
    | .short first others =>
      match progress.readShort first others with
      | .error refusal => .error refusal
      | .ok next => next.read rest
    | .plain bytes =>
      match progress.readPlain bytes with
      | .error refusal => .error refusal
      | .ok next => next.read rest

/-- The request that everything read makes. -/
def finish (progress : Progress) : Except Refusal Request := do
  let settled ← progress.settle
  match settled.executable, settled.version with
  | some executable, some version => .ok { executable, version }
  | _, _ => .error (.missing (Setting.all.filter fun setting => (settled.get setting).isNone))

end Progress

/-- The request that the arguments after the program's name make. -/
def Request.ofArguments (arguments : List Bytes) : Except Refusal Request := do
  let progress ← Progress.blank.read arguments
  progress.finish

end BundlePacker.CommandLine
