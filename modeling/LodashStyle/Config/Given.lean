import LodashStyle.Config.Options
import LodashStyle.Config.Schema

/-! # Options that were given

A configuration written as JSON sets some of the options.  `Given.check` reads it,
`Given.complete` fills the others with their defaults, and `Given.toJson` writes back just
the options that were set. -/

namespace LodashStyle

open Schema

/-- The settings that were given. -/
structure GivenSettings where
  pragma : Option (Option Text)
  library : Option Library
  deriving DecidableEq, Repr

/-- The options on chains that were given. -/
structure GivenChaining where
  mode : Option ChainMode
  depth : Option { n : Nat // 2 ≤ n }
  deriving DecidableEq, Repr

/-- The options on paths that were given. -/
structure GivenPathStyle where
  style : Option PathStyle
  deriving DecidableEq, Repr

/-- The options that were given, group by group. -/
structure Given where
  settings : Option GivenSettings
  chaining : Option GivenChaining
  pathStyle : Option GivenPathStyle
  rules : Option RuleSet
  deriving DecidableEq, Repr

namespace Given

/-- The identifier of the library: white space around it is dropped, and a blank text means
    none. -/
def pragma (v : Json) : Checked (Option Text) :=
  match text? v with
  | .error issues => .error issues
  | .ok none => .ok none
  | .ok (some t) =>
    let name := t.trim
    if name.isEmpty then .ok none
    else if Text.isIdentifier name then .ok (some name)
    else refuse (.refused ("Pragma must be a JavaScript identifier: " ++ name)) v

/-- The release of the library, by its major version. -/
def library (v : Json) : Checked Library :=
  match integer v with
  | .error issues => .error issues
  | .ok n =>
    match Library.ofMajor? n with
    | some l => .ok l
    | none =>
      refuse (.refused ("Unsupported lodash version " ++ Text.ofInt n ++
        (", expected one of (3, 4)" : Text))) v

/-- The settings. -/
def settingsOf (v : Json) : Checked GivenSettings :=
  match object "LodashSettings" v with
  | .error issues => .error issues
  | .ok members =>
    (both (both (optional "pragma" pragma members) (optional "version" library members))
      (onlyKeys ["pragma", "version"] members)).map fun ((p, l), _) => ⟨p, l⟩

/-- The options on chains. -/
def chainingOf (v : Json) : Checked GivenChaining :=
  match object "ChainingOptions" v with
  | .error issues => .error issues
  | .ok members =>
    (both (both
        (optional "mode" (choice [.always, .never, .implicit] ChainMode.name) members)
        (optional "depth" (natural 2) members))
      (onlyKeys ["mode", "depth"] members)).map fun ((m, d), _) => ⟨m, d⟩

/-- The options on paths. -/
def pathStyleOf (v : Json) : Checked GivenPathStyle :=
  match object "PathStyleOptions" v with
  | .error issues => .error issues
  | .ok members =>
    (both (optional "style" (choice [.asNeeded, .array, .string] PathStyle.name) members)
      (onlyKeys ["style"] members)).map fun (s, _) => ⟨s⟩

/-- The rules to run. -/
def rulesOf (v : Json) : Checked RuleSet :=
  match v with
  | .array items =>
    match each (choice [.chaining, .pathStyle] Rule.name) 0 items with
    | .error issues => .error issues
    | .ok rules =>
      match RuleSet.ofList? rules with
      | some set => .ok set
      | none => refuse (.refused "At least one rule must be enabled") v
  | _ => refuse .notList v

/-- Reads the options that a JSON value gives. -/
def check (v : Json) : Checked Given :=
  match object "LintConfig" v with
  | .error issues => .error issues
  | .ok members =>
    (both (both (both (both
        (optional "settings" settingsOf members)
        (optional "chaining" chainingOf members))
        (optional "path_style" pathStyleOf members))
        (optional "rules" rulesOf members))
      (onlyKeys ["settings", "chaining", "path_style", "rules"] members)).map
        fun ((((s, c), p), r), _) => ⟨s, c, p, r⟩

/-- The settings with defaults for what was not given. -/
def completeSettings (g : Option GivenSettings) : Settings :=
  let base : Settings := {}
  { pragma := (g.bind (·.pragma)).getD base.pragma
    library := (g.bind (·.library)).getD base.library }

/-- The options on chains with defaults for what was not given. -/
def completeChaining (g : Option GivenChaining) : ChainingOptions :=
  let base : ChainingOptions := .standard
  let depth := (g.bind (·.depth)).getD ⟨base.depth, base.two_le_depth⟩
  { mode := (g.bind (·.mode)).getD base.mode, depth := depth.val, two_le_depth := depth.property }

/-- All options, with defaults for what was not given. -/
def complete (g : Given) : Config :=
  let base : Config := {}
  { settings := completeSettings g.settings
    chaining := completeChaining g.chaining
    pathStyle := (g.pathStyle.bind (·.style)).getD base.pathStyle
    rules := g.rules.getD base.rules }

/-- A member for an option that was given. -/
def member {α : Type} (name : String) (write : α → Json) : Option α → Json.Members
  | none => []
  | some x => [(name, write x)]

/-- The identifier of the library as JSON. -/
def pragmaJson : Option Text → Json
  | none => .null
  | some name => .string name

/-- The settings that were given, as JSON. -/
def settingsJson (g : GivenSettings) : Json :=
  .object (member "pragma" pragmaJson g.pragma ++
    member "version" (fun l => .int (Library.major l)) g.library)

/-- The options on chains that were given, as JSON. -/
def chainingJson (g : GivenChaining) : Json :=
  .object (member "mode" (fun m => .string (ChainMode.name m)) g.mode ++
    member "depth" (fun (d : { n : Nat // 2 ≤ n }) => .int d.val) g.depth)

/-- The options on paths that were given, as JSON. -/
def pathStyleJson (g : GivenPathStyle) : Json :=
  .object (member "style" (fun s => .string (PathStyle.name s)) g.style)

/-- A set of rules as JSON. -/
def rulesJson (s : RuleSet) : Json := .array (s.toList.map fun r => .string r.name)

/-- The members of the options that were given. -/
def toMembers (g : Given) : Json.Members :=
  member "settings" settingsJson g.settings ++ member "chaining" chainingJson g.chaining ++
    member "path_style" pathStyleJson g.pathStyle ++ member "rules" rulesJson g.rules

/-- The options that were given, as JSON. -/
def toJson (g : Given) : Json := .object g.toMembers

end Given

/-- The issues of a whole configuration as a message shows them. -/
def Config.issuesText (issues : List Issue) : Text :=
  ("Invalid configuration: " : Text) ++ Text.ofNat issues.length ++
    (if issues.length = 1 then " validation error" else " validation errors") ++
    (" for LintConfig" : Text) ++ issues.flatMap fun i => .scalar '\n' :: i.text

/-- Reads a configuration. -/
def Config.check (v : Json) : Checked Config := (Given.check v).map Given.complete

end LodashStyle
