import LodashStyle.Files.Document
import LodashStyle.Log
import LodashStyle.Npm.Range

/-! # Package manifests

The nearest `package.json` at or above a place decides which major of the library a
project uses; one that does not declare the library ends the search as well. -/

namespace LodashStyle.Npm

/-- The packages that hold the library. -/
def packages : List Text := ["lodash", "lodash-es"]

/-- The sections of a manifest that declare packages, the most binding first. -/
def sections : List Text := ["dependencies", "devDependencies", "peerDependencies"]

/-- The range that a section declares for a package. -/
def declared? (manifest : Json.Members) (package sectionName : Text) : Option Text :=
  match manifest.get? sectionName with
  | some (.object dependencies) =>
    match Json.Members.get? package dependencies with
    | some (.string range) => some range
    | _ => none
  | _ => none

/-- The range that a manifest declares for the library: of the first package that any section
    declares, in the first such section. -/
def declaredRange? (manifest : Json.Members) : Option Text :=
  packages.findSome? fun package => sections.findSome? (declared? manifest package)

/-- Why the search for a major fails. -/
inductive DetectError where
  | range (error : RangeError)
  | data (fault : DataFault)
  deriving DecidableEq, Repr

/-- The failure of a search at a range. -/
def DetectError.ofRange : RangeFailure → DetectError
  | .refused error => .range error
  | .numeralTooLong digits => .data (.numeralTooLong digits)

/-- Where entries on manifests are logged from. -/
def manifestOrigin : String := "parsers.version"

/-- The major that a manifest declares. -/
def majorIn (store : Store) (manifest : FilePath) : Run DetectError (Option Nat) :=
  match store.readDocument manifest with
  | .error fault => Run.fail (.data fault)
  | .ok (.unreadable reason) => do
    Run.write ⟨.warning, manifestOrigin,
      "Failed to read " ++ manifest.text ++ (": " : Text) ++ reason⟩
    return none
  | .ok (.value (.object members)) =>
    match declaredRange? members with
    | none => do
      Run.debug manifestOrigin ("No lodash dependency declared in " ++ manifest.text)
      return none
    | some range => do
      let major ← Run.ofExcept ((majorOf range).mapError .ofRange)
      Run.debug manifestOrigin
        ("Resolved lodash " ++ range.quoted ++ (" from " : Text) ++ manifest.text ++
          (" to major " : Text) ++ Text.ofNat major)
      return some major
  | .ok (.value _) => pure none

/-- A location and those above it, the nearest first. -/
def upward (l : Location) : List Location := (List.range (l.length + 1)).reverse.map l.take

/-- The manifest in a directory. -/
def manifestIn (l : Location) : FilePath := Location.path (l ++ [("package.json" : Text)])

/-- The directory from which a manifest is looked for: the one of a file, or the place itself. -/
def searchStart (store : Store) (p : FilePath) : Location :=
  let l := store.resolve p
  match store.get? l with
  | some (.file _) => l.dropLast
  | _ => l

/-- The major that the nearest manifest declares. -/
def detect (store : Store) (p : FilePath) : Run DetectError (Option Nat) :=
  let candidates := (upward (searchStart store p)).map manifestIn
  match candidates.find? fun m => (store.follow m).isOk with
  | none => pure none
  | some manifest => majorIn store manifest

end LodashStyle.Npm
