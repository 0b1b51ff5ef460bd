import BundlePacker.CommandLine.Request
import BundlePacker.Text.Terminal

/-!
# What a refused command line is answered

Every refusal has a text, an exit status and a stream.  Help goes to the standard output and counts
as success; all else goes to the standard error with a hint, and most texts repeat the usage.  What
is repeated from the command line is shown as a terminal would show it.
-/

namespace BundlePacker.CommandLine

open Text

/-- The name of the program, where it is not told. -/
def defaultProgram : String :=
  "sur-artifactbundle"

/-- The name of the program, as the last component of the path it was started by. -/
def programName (path : Option Path) : String :=
  (path.bind Path.fileName? |>.bind Utf8.toString?).getD defaultProgram

/-- An option with the word for its value. -/
def Setting.shown (setting : Setting) : String :=
  "--" ++ setting.longName ++ " <" ++ setting.placeholder ++ ">"

/-- How the program is called. -/
def usage (program : String) : String :=
  "Usage: " ++ Terminal.visible program ++ " " ++ String.intercalate " " (Setting.all.map Setting.shown)

/-- The usage with the option for help. -/
def helpUsage (program : String) : String :=
  usage program ++ " --" ++ Progress.helpName

/-- What every text but that of help ends with. -/
def hint : String :=
  "For more information, try '--help'.\n"

/-- What the program is for and how it is called. -/
def help (program : String) : String :=
  "Create an artifact bundle for the sur executable\n\n" ++ usage program ++ "\n\n" ++
    "Options:\n" ++
    "  -e, --executable <PATH>  The path to the sur executable\n" ++
    "  -v, --version <VERSION>  The version of the sur executable\n" ++
    "  -h, --help               Print help\n"

/-- Paragraphs with a blank line between any two. -/
def paragraphs (parts : List String) : String :=
  String.intercalate "\n\n" parts

namespace Refusal

/-- The text for a refusal. -/
def message (program : String) : Refusal → String
  | helpWanted => help program
  | missing settings =>
    let listed := settings.map fun setting => "\n  " ++ setting.shown
    paragraphs
      ["error: the following required arguments were not provided:" ++ String.join listed,
        usage program, hint]
  | noValue setting =>
    paragraphs
      ["error: a value is required for '" ++ setting.shown ++ "' but none was supplied", hint]
  | repeated setting =>
    paragraphs
      ["error: the argument '" ++ setting.shown ++ "' cannot be used multiple times",
        usage program, hint]
  | notText =>
    paragraphs
      ["error: invalid UTF-8 was detected in one or more arguments", usage program, hint]
  | unknown argument none =>
    paragraphs ["error: unexpected argument '" ++ Terminal.visible argument ++ "' found", usage program, hint]
  | unknown argument (some similar) =>
    paragraphs
      ["error: unexpected argument '" ++ Terminal.visible argument ++ "' found",
        "  tip: a similar argument exists: '--" ++ similar ++ "'",
        if similar = Progress.helpName then helpUsage program else usage program, hint]
  | surplusValue value =>
    paragraphs
      ["error: unexpected value '" ++ Terminal.visible value ++ "' for '--" ++ Progress.helpName ++
          "' found; no more were expected",
        helpUsage program, hint]

/-- The exit status of a program whose command line is refused. -/
def exitStatus : Refusal → Nat
  | helpWanted => 0
  | _ => 2

/-- Whether the text for a refusal goes to the standard error. -/
def isError : Refusal → Bool
  | helpWanted => false
  | _ => true

end Refusal

end BundlePacker.CommandLine
