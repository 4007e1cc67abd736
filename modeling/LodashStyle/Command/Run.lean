import LodashStyle.Command.Arguments
import LodashStyle.Command.Report
import LodashStyle.Files.Collect
import LodashStyle.Lint.Fixing

/-! # A whole run

A run reads its command line, resolves the configuration, lints the files one after the
other and reports.  It sees a store and leaves one; the store changes only where fixes were
applied.

`visit` is what happens to one file, `lintFiles` goes through them, and `run` is the
program. -/

namespace LodashStyle.Command

/-- What ends a run without an exit status. -/
inductive Crash where
  | data (fault : DataFault)
  | lint (error : LintError)
  deriving DecidableEq, Repr

/-- What came of one file. -/
structure Visit where
  log : List Log.Entry
  /-- The new text of the file, if fixes were applied. -/
  written : Option (List Char)
  /-- The diagnostics, or nothing if the file could not be read. -/
  outcome : Except Crash (Option (List Diagnostic))

/-- Where entries on files are logged from. -/
def origin : String := "main"

/-- What a lint of a text comes to. -/
def lintVisit (config : Config) (file : Text) (text : List Char) : Visit :=
  let linted := lint config (some file) text
  ⟨linted.log, none, (linted.outcome.map some).mapError fun e => .lint (.escape e)⟩

/-- Fixes a text, and lints what comes of it. -/
def fixVisit (config : Config) (file : Text) (text : List Char) : Visit :=
  let fixed := fixSource config (some file) text
  match fixed.outcome with
  | .error e => ⟨fixed.log, none, .error (.lint e)⟩
  | .ok result =>
    let after := lintVisit config file result.output
    if result.changed then
      let entry : Log.Entry := ⟨.info, origin,
        "Applied " ++ Text.ofNat result.applied.length ++ (" fixes to " : Text) ++ file⟩
      ⟨fixed.log ++ [entry] ++ after.log, some result.output, after.outcome⟩
    else
      ⟨fixed.log ++ after.log, none, after.outcome⟩

/-- What happens to a file in a store. -/
def visit (config : Config) (fix : Bool) (s : Store) (file : FilePath) : Visit :=
  match s.readText file with
  | .error e =>
    ⟨[⟨.warning, origin, "Failed to read " ++ file.text ++ (": " : Text) ++ e.message⟩], none,
      .ok none⟩
  | .ok text => if fix then fixVisit config file.text text else lintVisit config file.text text

/-- How far the files have been gone through. -/
structure Progress where
  store : Store
  log : List Log.Entry
  diagnostics : List Diagnostic
  failures : Nat
  crash : Option Crash

/-- The progress after what came of a file. -/
def Progress.add (p : Progress) (file : FilePath) (v : Visit) : Progress :=
  let store := match v.written with
    | none => p.store
    | some text => p.store.writeText file text
  match v.outcome with
  | .error e => { p with store, log := p.log ++ v.log, crash := some e }
  | .ok none => { p with store, log := p.log ++ v.log, failures := p.failures + 1 }
  | .ok (some ds) => { p with store, log := p.log ++ v.log, diagnostics := p.diagnostics ++ ds }

/-- Goes through files until one ends the run. -/
def lintFiles (config : Config) (fix : Bool) (p : Progress) : List FilePath → Progress
  | [] => p
  | file :: rest =>
    let next := p.add file (visit config fix p.store file)
    if next.crash.isSome then next else lintFiles config fix next rest

/-- How a run ends. -/
inductive Ending where
  | help
  | usage (error : UsageError)
  | status (code : Nat)
  | crashed (cause : Crash)
  deriving DecidableEq, Repr

/-- What a run leaves behind. -/
structure Session where
  ending : Ending
  output : Text
  errors : Text
  store : Store

/-- The entries that are shown, one a line: all of them, or warnings only. -/
def shown (verbose : Bool) (log : List Log.Entry) : Text :=
  (log.filter fun e => verbose || e.level == .warning).flatMap fun e => e.text ++ ("\n" : Text)

/-- An error on a line of its own. -/
def errorLine (message : Text) : Text := "ERROR: " ++ message ++ ("\n" : Text)

/-- The configuration that a command line asks for. -/
def Arguments.resolve (a : Arguments) (s : Store) (env : Environment) : Run ConfigFailure Config :=
  let around := FilePath.parse (a.files.headD [])
  Config.resolve s around env a.configFile? a.layer

/-- The format that a command line asks for. -/
def Arguments.reportFormat (a : Arguments) : Format :=
  match a.format with
  | .value f => f
  | _ => .text

/-- The end of a run that went through its files. -/
def finish (a : Arguments) (p : Progress) (before : List Log.Entry) : Session :=
  let logged := shown a.verbose (before ++ p.log)
  match p.crash with
  | some cause => ⟨.crashed cause, [], logged, p.store⟩
  | none =>
    let text := report a.reportFormat p.diagnostics
    let output := if text.isEmpty then [] else text ++ ("\n" : Text)
    if 0 < p.failures then
      ⟨.status 2, output,
        logged ++ errorLine (Text.ofNat p.failures ++ (" files could not be read" : Text)), p.store⟩
    else
      ⟨.status (if p.diagnostics.isEmpty then 0 else 1), output, logged, p.store⟩

/-- A run with arguments. -/
def runWith (a : Arguments) (s : Store) (env : Environment) : Session :=
  let resolved := a.resolve s env
  match resolved.outcome with
  | .error (.data fault) => ⟨.crashed (.data fault), [], shown a.verbose resolved.log, s⟩
  | .error (.refused e) =>
    ⟨.status 2, [], shown a.verbose resolved.log ++ errorLine e.message, s⟩
  | .ok config =>
    let files := s.collect (a.files.map FilePath.parse)
    finish a (lintFiles config a.fix ⟨s, [], [], 0, none⟩ files) resolved.log

/-- The program: the words of a command line, a store and an environment in, a session out. -/
def run (words : List Text) (s : Store) (env : Environment) : Session :=
  match Arguments.parse words with
  | .error .help => ⟨.help, [], [], s⟩
  | .error (.usage e) => ⟨.usage e, [], [], s⟩
  | .ok a => runWith a s env

end LodashStyle.Command
