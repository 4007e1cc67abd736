import LodashStyle.Command.Run

/-! # The command line program

Takes a snapshot of the files that a run can look at, runs on it, writes the files that
changed and prints. -/

namespace LodashStyle.Snapshot

/-- A text as a string for the operating system. -/
def string (t : Text) : String := String.ofList (t.toChars?.getD [])

/-- The bytes of the file at a location. -/
def readFile (l : Location) : IO FileEntry := do
  let bytes ← IO.FS.readBinFile (string (Location.path l).text)
  return .file bytes.toList

/-- What stands at a location, if anything does. -/
def probe (l : Location) : IO (List (Location × FileEntry)) := do
  try
    let here ← IO.FS.realPath (string (Location.path l).text)
    match (← here.metadata).type with
    | .dir => return [(l, .directory)]
    | _ => return [(l, ← readFile l)]
  catch _ => return []

/-- The JavaScript files below a directory, outside installed packages.  Directories are not
    entered through links. -/
partial def filesBelow (l : Location) : IO (List (Location × FileEntry)) := do
  let mut found := []
  let here ← IO.FS.realPath (string (Location.path l).text)
  for child in ← here.readDir do
    let name := Text.ofString child.fileName
    let place := l ++ [name]
    if name != packagesDirectory then
      if (← child.path.symlinkMetadata).type == .dir then
        found := found ++ (← filesBelow place)
      else if (Location.path place).isLintable && (← child.path.pathExists) then
        if (← child.path.metadata).type == .file then
          found := found ++ [(place, ← readFile place)]
  return found

/-- What stands on the way to a path and below it. -/
def around (base : Store) (p : FilePath) : IO (List (Location × FileEntry)) := do
  let mut found : List (Location × FileEntry) := []
  for n in List.range (p.parts.length + 1) do
    found := found ++ (← probe (base.resolve { p with parts := p.parts.take n }))
  let place := base.resolve p
  match found.find? (·.1 == place) with
  | some (_, .directory) => return found ++ (← filesBelow place)
  | _ => return found

/-- Sorted entries with one for each location. -/
def distinct : List (Location × FileEntry) → List (Location × FileEntry)
  | a :: b :: rest => if a.1 = b.1 then distinct (b :: rest) else a :: distinct (b :: rest)
  | entries => entries

/-- The part of the file system that a run over some paths looks at: these paths, and the
    manifests at and above the first of them. -/
def take (workingDirectory : Location) (paths : List FilePath) : IO Store := do
  let base : Store := ⟨workingDirectory, []⟩
  let mut found : List (Location × FileEntry) := []
  for p in paths do
    found := found ++ (← around base p)
  let first := base.resolve (paths.headD ⟨.relative, []⟩)
  for place in Npm.upward first do
    found := found ++ (← probe (place ++ [("package.json" : Text)]))
  return { base with entries := distinct (found.mergeSort fun a b => FilePath.partsLe a.1 b.1) }

/-- Writes the files of `after` that differ from those of `before`. -/
def writeChanges (before after : Store) : IO Unit := do
  for (l, e) in after.entries do
    match e with
    | .file bytes =>
      if before.get? l != some e then
        IO.FS.writeBinFile (string (Location.path l).text) (ByteArray.mk bytes.toArray)
    | .directory => pure ()

/-- The paths that a command line names. -/
def pathsOf (words : List Text) : List FilePath :=
  match Command.Arguments.parse words with
  | .ok a => a.files.map FilePath.parse ++ a.configFile?.toList
  | .error _ => []

/-- The summary of the options. -/
def usage : String :=
  "usage: lodash-lint [options] files [files ...]\n\n" ++
  "  --config FILE                          JSON configuration file\n" ++
  "  --chaining-mode always|never|implicit  policy on chains\n" ++
  "  --chaining-depth N                     nesting from which a composition should be a chain\n" ++
  "  --path-style as-needed|array|string    notation of property paths\n" ++
  "  --lodash-version 3|4                   major version of lodash\n" ++
  "  --pragma NAME                          identifier bound to lodash\n" ++
  "  --rule chaining|path-style             only run the given rule (repeatable)\n" ++
  "  --fix                                  write automatic fixes to disk\n" ++
  "  --format text|json                     output format\n" ++
  "  -v, --verbose                          verbose logging\n"

/-- The message of a cause that ends a run. -/
def crashText : Command.Crash → Text
  | .data (.undecodable fault) => fault.message
  | .data (.numeralTooLong digits) => Json.Fault.message [] (.numeralTooLong digits)
  | .lint (.escape fault) => (fault.message : Text)
  | .lint (.splice .unencodable) => "a replacement holds a lone surrogate"
  | .lint (.splice (.undecodable fault)) => fault.message

end LodashStyle.Snapshot

open LodashStyle Snapshot in
def main (words : List String) : IO UInt32 := do
  let words := words.map Text.ofString
  let here := FilePath.parse (Text.ofString (← IO.currentDir).toString)
  let env : Environment :=
    ⟨(← IO.getEnv "LODASH_LINT_VERSION").map Text.ofString,
      (← IO.getEnv "LODASH_LINT_PRAGMA").map Text.ofString⟩
  let store ← take here.parts (pathsOf words)
  let session := Command.run words store env
  writeChanges store session.store
  IO.print (string session.output)
  IO.eprint (string session.errors)
  match session.ending with
  | .status code => return UInt32.ofNat code
  | .help =>
    IO.print usage
    return 0
  | .usage e =>
    IO.eprint usage
    IO.eprintln (string e.line)
    return 2
  | .crashed cause =>
    IO.eprintln (string (crashText cause))
    return 1
