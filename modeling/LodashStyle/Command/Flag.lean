import LodashStyle.Config.Options
import LodashStyle.Text.Quoted

/-! # Options of the command line

The options, their spellings, and why a command line is refused. -/

namespace LodashStyle.Command

/-- The options. -/
inductive Flag where
  | help
  | config
  | chainingMode
  | chainingDepth
  | pathStyle
  | lodashVersion
  | pragma
  | rule
  | fix
  | format
  | verbose
  deriving DecidableEq, Repr

namespace Flag

/-- The options in the order of their declaration. -/
def all : List Flag :=
  [.help, .config, .chainingMode, .chainingDepth, .pathStyle, .lodashVersion, .pragma, .rule,
   .fix, .format, .verbose]

/-- The spellings of an option. -/
def spellings : Flag → List Text
  | .help => ["-h", "--help"]
  | .config => ["--config"]
  | .chainingMode => ["--chaining-mode"]
  | .chainingDepth => ["--chaining-depth"]
  | .pathStyle => ["--path-style"]
  | .lodashVersion => ["--lodash-version"]
  | .pragma => ["--pragma"]
  | .rule => ["--rule"]
  | .fix => ["--fix"]
  | .format => ["--format"]
  | .verbose => ["-v", "--verbose"]

/-- Whether an option takes a value. -/
def takesValue : Flag → Bool
  | .help | .fix | .verbose => false
  | _ => true

/-- The name of an option in messages. -/
def label (f : Flag) : Text := Text.join "/" f.spellings

/-- Every spelling with its option. -/
def table : List (Text × Flag) := all.flatMap fun f => f.spellings.map fun s => (s, f)

/-- The option with a spelling. -/
def ofSpelling? (t : Text) : Option Flag := (table.find? (·.1 == t)).map (·.2)

theorem mem_all (f : Flag) : f ∈ all := by cases f <;> decide

end Flag

/-- The formats of a report. -/
inductive Format where
  | text
  | json
  deriving DecidableEq, Repr

/-- The name of a format. -/
def Format.name : Format → String
  | .text => "text"
  | .json => "json"

/-- Why a command line is refused. -/
inductive UsageError where
  /-- A shortened spelling fits several options. -/
  | ambiguous (given : Text) (candidates : List Text)
  | missingValue (flag : Flag)
  | unusedValue (flag : Flag) (value : Text)
  | notInteger (flag : Flag) (value : Text)
  | notChoice (flag : Flag) (value : Text) (choices : List String)
  | noFiles
  | unrecognized (words : List Text)
  deriving DecidableEq, Repr

/-- The wording of an error that concerns one option. -/
def flagMessage (flag : Flag) (what : Text) : Text :=
  "argument " ++ flag.label ++ (": " : Text) ++ what

/-- The wording of an error. -/
def UsageError.message : UsageError → Text
  | .ambiguous given candidates =>
    "ambiguous option: " ++ given ++ (" could match " : Text) ++ Text.join ", " candidates
  | .missingValue flag => flagMessage flag "expected one argument"
  | .unusedValue flag value => flagMessage flag ("ignored explicit argument " ++ value.quoted)
  | .notInteger flag value => flagMessage flag ("invalid int value: " ++ value.quoted)
  | .notChoice flag value choices =>
    flagMessage flag ("invalid choice: " ++ value.quoted ++ (" (choose from " : Text) ++
      Text.join ", " (choices.map fun c => Text.quoted (Text.ofString c)) ++ (")" : Text))
  | .noFiles => "the following arguments are required: files"
  | .unrecognized words => "unrecognized arguments: " ++ Text.join " " words

/-- The error as a line. -/
def UsageError.line (e : UsageError) : Text := "lodash-lint: error: " ++ e.message

end LodashStyle.Command
