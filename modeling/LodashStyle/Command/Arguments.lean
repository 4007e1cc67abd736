import LodashStyle.Command.Flag
import LodashStyle.Config.Layers

/-! # Reading a command line

Every word is classified first: an option (its spelling in full, shortened, or with its
value after `=`), the divider `--`, or a plain word.  After the divider all words are plain.
Then the words are taken in order.  An option that needs a value takes the plain word next
to it.  The first run of other plain words is the list of files; later ones are left over.

An empty run, and then words left over, are refused at the end, so that an error of an
option comes first. -/

namespace LodashStyle.Command

/-- What a command line says on an option with a value. -/
inductive Operand (α : Type) where
  | absent
  /-- The value was written `=--`, which stands for an empty list of values. -/
  | empty
  | value (x : α)
  deriving DecidableEq, Repr

/-- What a command line says. -/
structure Arguments where
  files : List Text
  config : Operand FilePath
  chainingMode : Operand ChainMode
  chainingDepth : Operand Int
  pathStyle : Operand PathStyle
  lodashVersion : Operand Int
  pragma : Operand Text
  rules : List (Operand Rule)
  fix : Bool
  format : Operand Format
  verbose : Bool
  deriving DecidableEq, Repr

/-- What an empty command line says. -/
def Arguments.none : Arguments :=
  ⟨[], .absent, .absent, .absent, .absent, .absent, .absent, [], false, .absent, false⟩

/-- Why there are no arguments to run with. -/
inductive Stop where
  | help
  | usage (error : UsageError)
  deriving DecidableEq, Repr

/-- A classified word. -/
inductive Item where
  | word (t : Text)
  | divider
  /-- An option under one of its spellings, with the value after `=` or after a letter. -/
  | option (flag : Flag) (spelling : Text) (value : Option Text)
  /-- A word that looks like an option and is none. -/
  | unknown (t : Text)
  deriving DecidableEq, Repr

/-! ## Classification -/

/-- A text without one line feed at its end. -/
def withoutLineFeed (t : Text) : Text :=
  if t.getLast?.any (·.isChar '\n') then t.dropLast else t

/-- Whether what follows a minus sign is a decimal number, with or without a point. -/
def isDecimal (t : Text) : Bool :=
  let whole := t.takeWhile CodePoint.isDigit
  match t.drop whole.length with
  | [] => !whole.isEmpty
  | p :: fraction => p.isChar '.' && !fraction.isEmpty && fraction.all CodePoint.isDigit

/-- Whether a text is a negative number; a line feed at its end does not matter. -/
def isNegativeNumber : Text → Bool
  | [] => false
  | p :: rest => p.isChar '-' && isDecimal (withoutLineFeed rest)

/-- The part of a text before the first `=` and the part after it, if there is one. -/
def splitValue (t : Text) : Text × Option Text :=
  let name := t.takeWhile (!·.isChar '=')
  match t.drop name.length with
  | [] => (name, none)
  | _ :: value => (name, some value)

/-- The options that a word with at least two code points shortens: a long spelling may be cut
    off, and a letter may be followed by a value. -/
def completions (t : Text) : List (Text × Flag × Option Text) :=
  if t.startsWith "--" then
    let (name, value) := splitValue t
    (Flag.table.filter fun (s, _) => s.startsWith name).map fun (s, f) => (s, f, value)
  else
    Flag.table.filterMap fun (s, f) =>
      if s == t.take 2 then some (s, f, some (t.drop 2))
      else if s.startsWith t then some (s, f, none)
      else none

/-- Classifies a word that starts with a hyphen, is no spelling of an option, and has more than
    one code point. -/
def classifyHyphened (t : Text) : Except UsageError Item :=
  let exact := match splitValue t with
    | (name, some value) => (Flag.ofSpelling? name).map fun f => Item.option f name (some value)
    | (_, none) => none
  match exact, completions t with
  | some item, _ => .ok item
  | none, [(s, f, value)] => .ok (.option f s value)
  | none, [] =>
    if isNegativeNumber t || t.any (·.isChar ' ') then .ok (.word t) else .ok (.unknown t)
  | none, several => .error (.ambiguous t (several.map (·.1)))

/-- Classifies a word. -/
def classify (t : Text) : Except UsageError Item :=
  match Flag.ofSpelling? t with
  | some f => .ok (.option f t none)
  | none =>
    if t.startsWith "-" && 1 < t.length then classifyHyphened t else .ok (.word t)

/-- Classifies the words up to the divider; those after it are plain. -/
def classifyAll : List Text → Except UsageError (List Item)
  | [] => .ok []
  | t :: rest =>
    if t = ("--" : Text) then .ok (.divider :: rest.map .word)
    else do
      let item ← classify t
      let items ← classifyAll rest
      return item :: items

/-! ## Values -/

/-- White space around an integer. -/
def isIntegerBlank (p : CodePoint) : Bool :=
  p.isSpace && (127 < p.val || p.val ≤ 0xD || p.val == 0x20)

/-- The digits of a numeral in which single underscores may stand between digits;
    `afterDigit` says whether a digit came just before. -/
def numeralDigits (afterDigit : Bool) : Text → Option (List Nat)
  | [] => if afterDigit then some [] else none
  | p :: rest =>
    match p.digit? with
    | some d => (numeralDigits true rest).map (d :: ·)
    | none => if p.isChar '_' && afterDigit then numeralDigits false rest else none

/-- The greatest number of digits of an integer. -/
def maxDigits : Nat := 4300

/-- Reads an integer: blanks around it, a sign, and digits of any script. -/
def integer? (t : Text) : Option Int :=
  let body := ((t.dropWhile isIntegerBlank).reverse.dropWhile isIntegerBlank).reverse
  let negative := body.head?.any (·.isChar '-')
  let signed := negative || body.head?.any (·.isChar '+')
  match numeralDigits false (if signed then body.drop 1 else body) with
  | none => none
  | some digits =>
    if maxDigits < digits.length then none
    else
      let n : Int := (digits.foldl (fun n d => n * 10 + d) 0 : Nat)
      some (if negative then -n else n)

/-- The value of an option, with `--` for none at all. -/
def operand {α : Type} (read : Text → Except UsageError α) (t : Text) :
    Except UsageError (Operand α) :=
  if t = ("--" : Text) then .ok .empty else (read t).map .value

/-- Reads an integer value of an option. -/
def readInteger (flag : Flag) (t : Text) : Except UsageError Int :=
  match integer? t with
  | some n => .ok n
  | none => .error (.notInteger flag t)

/-- Reads one of the named values of an option. -/
def readChoice {α : Type} (flag : Flag) (choices : List α) (name : α → String) (t : Text) :
    Except UsageError α :=
  match choices.find? fun c => Text.ofString (name c) == t with
  | some c => .ok c
  | none => .error (.notChoice flag t (choices.map name))

/-! ## Taking the words in order -/

/-- How far the list of files has come. -/
inductive FileRun where
  | pending
  | reading
  | done
  deriving DecidableEq, Repr

/-- The arguments read so far, and the words left over, both lists of words in reverse. -/
structure Reading where
  arguments : Arguments
  run : FileRun
  extras : List Text
  deriving DecidableEq, Repr

namespace Reading

/-- Before the first word. -/
def start : Reading := ⟨.none, .pending, []⟩

/-- Leaves a word over. -/
def leave (r : Reading) (t : Text) : Reading := { r with extras := t :: r.extras }

/-- Takes a plain word: a file, unless the list of files is done. -/
def takeWord (r : Reading) (t : Text) : Reading :=
  match r.run with
  | .done => r.leave t
  | _ =>
    { r with arguments := { r.arguments with files := t :: r.arguments.files }, run := .reading }

/-- Takes the divider: it belongs to the list of files if a file stands next to it. -/
def takeDivider (r : Reading) (followed : Bool) : Reading :=
  match r.run with
  | .reading => r
  | .pending => if followed then { r with run := .reading } else r.leave "--"
  | .done => r.leave "--"

/-- Ends the list of files where an option stands. -/
def closeFiles (r : Reading) : Reading :=
  match r.run with
  | .reading => { r with run := .done }
  | _ => r

/-- Takes an option without a value. -/
def takeSwitch (r : Reading) : Flag → Except Stop Reading
  | .help => .error .help
  | .fix => .ok { r with arguments := { r.arguments with fix := true } }
  | .verbose => .ok { r with arguments := { r.arguments with verbose := true } }
  | _ => .ok r

/-- Takes several options without values. -/
def takeSwitches (r : Reading) : List Flag → Except Stop Reading
  | [] => .ok r
  | f :: rest => do takeSwitches (← r.takeSwitch f) rest

/-- Takes an option with its value. -/
def takeValue (r : Reading) (flag : Flag) (t : Text) : Except UsageError Reading := do
  let a := r.arguments
  let a ← match flag with
    | .config => do
      let x ← operand (fun t => .ok (FilePath.parse t)) t
      pure { a with config := x }
    | .chainingMode => do
      let x ← operand (readChoice flag [.always, .never, .implicit] ChainMode.name) t
      pure { a with chainingMode := x }
    | .chainingDepth => do
      let x ← operand (readInteger flag) t
      pure { a with chainingDepth := x }
    | .pathStyle => do
      let x ← operand (readChoice flag [.asNeeded, .array, .string] PathStyle.name) t
      pure { a with pathStyle := x }
    | .lodashVersion => do
      let x ← operand (readInteger flag) t
      pure { a with lodashVersion := x }
    | .pragma => do
      let x ← operand .ok t
      pure { a with pragma := x }
    | .rule => do
      let x ← operand (readChoice flag [.chaining, .pathStyle] Rule.name) t
      pure { a with rules := a.rules ++ [x] }
    | .format => do
      let x ← operand (readChoice flag [.text, .json] Format.name) t
      pure { a with format := x }
    | .help | .fix | .verbose => pure a
  return { r with arguments := a }

end Reading

/-- The options that letters after the one-letter option `flag` stand for; a letter that is no
    option refuses what is left as a value of the option before it. -/
def letterFlags (flag : Flag) : Text → Except UsageError (List Flag)
  | [] => .ok [flag]
  | p :: rest =>
    match Flag.ofSpelling? [.scalar '-', p] with
    | some next => (letterFlags next rest).map (flag :: ·)
    | none => .error (.unusedValue flag (p :: rest))

/-- The options that an option without a value stands for when a text follows it. -/
def attachedFlags (flag : Flag) (spelling value : Text) : Except UsageError (List Flag) :=
  if spelling.startsWith "--" || value.isEmpty then .error (.unusedValue flag value)
  else letterFlags flag value

/-- Takes classified words in order. -/
def takeItems (r : Reading) : List Item → Except Stop Reading
  | [] => .ok r
  | .word t :: rest => takeItems (r.takeWord t) rest
  | .divider :: rest => takeItems (r.takeDivider !rest.isEmpty) rest
  | .unknown t :: rest => takeItems (r.closeFiles.leave t) rest
  | .option flag spelling (some value) :: rest => do
    let r := r.closeFiles
    if flag.takesValue then
      takeItems (← (r.takeValue flag value).mapError .usage) rest
    else
      let flags ← (attachedFlags flag spelling value).mapError .usage
      takeItems (← r.takeSwitches flags) rest
  | .option flag _ none :: rest => do
    let r := r.closeFiles
    if flag.takesValue then
      match rest with
      | .word t :: rest => takeItems (← (r.takeValue flag t).mapError .usage) rest
      | _ => .error (.usage (.missingValue flag))
    else
      takeItems (← r.takeSwitch flag) rest

/-- Reads a command line. -/
def Arguments.parse (words : List Text) : Except Stop Arguments := do
  let items ← (classifyAll words).mapError .usage
  let r ← takeItems .start items
  if r.arguments.files.isEmpty then .error (.usage .noFiles)
  else if !r.extras.isEmpty then .error (.usage (.unrecognized r.extras.reverse))
  else return { r.arguments with files := r.arguments.files.reverse }

/-! ## The layer of the command line -/

/-- The member that an option sets. -/
def Operand.member {α : Type} (name : String) (write : α → Json) : Operand α → Json.Members
  | .absent => []
  | .empty => [(name, .array [])]
  | .value x => [(name, write x)]

/-- The options that a command line sets; a pragma without a value, or an empty one, means
    none. -/
def Arguments.layer (a : Arguments) : Json.Members :=
  let pragma : Json.Members := match a.pragma with
    | .absent => []
    | .empty => [("pragma", .null)]
    | .value t => [("pragma", Layers.pragmaValue t)]
  let rule : Operand Rule → Json
    | .value r => .string r.name
    | _ => .array []
  let rules : Json.Members :=
    if a.rules.isEmpty then [] else [("rules", .array (a.rules.map rule))]
  Layers.group "settings" (a.lodashVersion.member "version" .int ++ pragma) ++
    Layers.group "chaining" (a.chainingMode.member "mode" (fun m => .string m.name) ++
      a.chainingDepth.member "depth" .int) ++
    Layers.group "path_style" (a.pathStyle.member "style" fun s => .string s.name) ++ rules

/-- The configuration file that a command line names. -/
def Arguments.configFile? (a : Arguments) : Option FilePath :=
  match a.config with
  | .value p => some p
  | _ => Option.none

end LodashStyle.Command
