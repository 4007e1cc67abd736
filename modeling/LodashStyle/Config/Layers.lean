import LodashStyle.Config.Given
import LodashStyle.Npm.Manifest

/-! # Layers of options

Options come from four layers: the manifest of the project, the environment, a
configuration file and the command line.  A later layer wins, option by option.  Each layer
is a JSON object of the shape of a configuration; only their merge is checked as a whole,
so a value that a later layer hides is never looked at, except that a configuration file
has to be valid by itself. -/

namespace LodashStyle

open Schema

/-- Why there is no configuration. -/
inductive ConfigError where
  | unreadable (path : FilePath) (reason : Text)
  | notObject (path : FilePath)
  | invalid (issues : List Issue)
  deriving Repr

/-- The wording of an error. -/
def ConfigError.message : ConfigError → Text
  | .unreadable path reason =>
    "Failed to read config file " ++ path.text ++ (": " : Text) ++ reason
  | .notObject path => "Config file " ++ path.text ++ (" must contain a JSON object" : Text)
  | .invalid issues => Config.issuesText issues

/-- How the search for a configuration fails: with an error to report, or with data that no
    report covers. -/
inductive ConfigFailure where
  | refused (error : ConfigError)
  | data (fault : DataFault)
  deriving Repr

/-- The options that a configuration file gives. -/
def Store.readConfig (s : Store) (path : FilePath) : Except ConfigFailure Given :=
  match s.readDocument path with
  | .error fault => .error (.data fault)
  | .ok (.unreadable reason) => .error (.refused (.unreadable path reason))
  | .ok (.value (.object members)) =>
    (Given.check (.object members)).mapError fun issues => .refused (.invalid issues)
  | .ok (.value _) => .error (.refused (.notObject path))

/-- The variables that set options. -/
structure Environment where
  version : Option Text
  pragma : Option Text
  deriving DecidableEq, Repr

namespace Layers

/-- A group of options, left out when none is set. -/
def group (name : String) : Json.Members → Json.Members
  | [] => []
  | members => [(name, .object members)]

/-- A pragma as JSON, the empty one meaning none. -/
def pragmaValue (t : Text) : Json := if t.isEmpty then .null else .string t

/-- The options that the environment sets; an empty version sets nothing. -/
def environment (e : Environment) : Json.Members :=
  let version := (e.version.filter (!·.isEmpty)).map fun v => (("version" : Text), Json.string v)
  let pragma := e.pragma.map fun p => (("pragma" : Text), pragmaValue p)
  group "settings" (version.toList ++ pragma.toList)

/-- Where entries on configuration are logged from. -/
def origin : String := "main"

/-- The options that a detected major sets; only a supported one does. -/
def detected (major : Option Nat) : Run DataFault Json.Members :=
  match major with
  | none => pure []
  | some n =>
    if (Library.ofMajor? n).isSome then pure (group "settings" [("version", .int n)])
    else do
      Run.write ⟨.warning, origin, "package.json declares unsupported lodash major " ++ Text.ofNat n⟩
      return []

/-- The options that the manifest of the project around a path sets. -/
def manifest (s : Store) (around : FilePath) : Run DataFault Json.Members :=
  let search := Npm.detect s around
  match search.outcome with
  | .ok major => ⟨search.log ++ (detected major).log, (detected major).outcome⟩
  | .error (.range error) =>
    ⟨search.log ++ [⟨.warning, origin,
      "Ignoring lodash version from package.json: " ++ error.message⟩], .ok []⟩
  | .error (.data fault) => ⟨search.log, .error fault⟩

/-- The options that a configuration file sets. -/
def file (s : Store) : Option FilePath → Except ConfigFailure Json.Members
  | none => .ok []
  | some path => (s.readConfig path).map Given.toMembers

/-- The layers merged, the last on top. -/
def merge (layers : List Json.Members) : Json.Members := layers.foldl Json.Members.merge []

end Layers

/-- The configuration of a run over a project: the layers of its manifest, found from a path
    in it, of the environment, of a configuration file and of the command line. -/
def Config.resolve (s : Store) (around : FilePath) (env : Environment) (file : Option FilePath)
    (commandLine : Json.Members) : Run ConfigFailure Config := do
  let manifest ← (Layers.manifest s around).mapError .data
  let file ← Run.ofExcept (Layers.file s file)
  let merged := Layers.merge [manifest, Layers.environment env, file, commandLine]
  Run.ofExcept ((Config.check (.object merged)).mapError fun issues => .refused (.invalid issues))

end LodashStyle
