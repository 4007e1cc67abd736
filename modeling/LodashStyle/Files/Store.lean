import LodashStyle.Files.Path
import LodashStyle.Text.Quoted
import LodashStyle.Text.Utf8

/-! # Files and directories

A store holds what a run can see of a file system: entries at absolute locations, and the
working directory.  A directory need not be listed: whatever lies above an entry or above
the working directory is one.

Following a path costs a look at every name on the way, so `..` after a name that is
missing, or that is a file, is refused.  `resolve` takes names at their word instead.

Text files are UTF-8; on reading, the line ends `\r\n` and `\r` become `\n`.

* `get?_setBytes_self`   a file holds the bytes last written to it
* `get?_setBytes_of_ne`  writing one file leaves every other location alone -/

namespace LodashStyle

/-- An absolute location: the names on the way from the root. -/
abbrev Location := List Text

/-- What stands at a location. -/
inductive FileEntry where
  | file (bytes : List UInt8)
  | directory
  deriving DecidableEq, Repr

/-- Files and directories, and the location that relative paths start from. -/
structure Store where
  workingDirectory : Location
  entries : List (Location × FileEntry)
  deriving Repr

/-- What goes wrong on the way to a file. -/
inductive FileFault where
  | notFound
  | notDirectory
  | isDirectory
  deriving DecidableEq, Repr

/-- The number and the wording of a fault. -/
def FileFault.message : FileFault → String
  | .notFound => "[Errno 2] No such file or directory"
  | .notDirectory => "[Errno 20] Not a directory"
  | .isDirectory => "[Errno 21] Is a directory"

/-- Why a text file is not read. -/
inductive ReadError where
  | file (fault : FileFault) (path : Text)
  | undecodable (fault : Utf8.DecodeFault)
  deriving DecidableEq, Repr

/-- The wording of an error. -/
def ReadError.message : ReadError → Text
  | .file fault path => (fault.message : Text) ++ (": " : Text) ++ path.quoted
  | .undecodable fault => fault.message

/-- The spelling of a location. -/
def Location.path (l : Location) : FilePath := ⟨.root, l⟩

/-- The text of a file with `\n` as its only line end. -/
def normalizeLines : List Char → List Char
  | [] => []
  | '\r' :: '\n' :: rest => '\n' :: normalizeLines rest
  | c :: rest => (if c = '\r' then '\n' else c) :: normalizeLines rest

namespace Store

/-- Whether a location lies above an entry or is on the way to the working directory. -/
def isAbove (s : Store) (l : Location) : Bool :=
  l.isPrefixOf s.workingDirectory || s.entries.any fun (k, _) => l.isPrefixOf k && l != k

/-- What stands at a location. -/
def get? (s : Store) (l : Location) : Option FileEntry :=
  match s.entries.find? (·.1 == l) with
  | some (_, e) => some e
  | none => if s.isAbove l then some .directory else none

/-- Follows names from a location. -/
def walk (s : Store) (here : Location) : List Text → Except FileFault Location
  | [] => .ok here
  | name :: rest =>
    match s.get? here with
    | none => .error .notFound
    | some (.file _) => .error .notDirectory
    | some .directory =>
      if name = (".." : Text) then walk s here.dropLast rest else walk s (here ++ [name]) rest

/-- The location that a path starts from. -/
def start (s : Store) (p : FilePath) : Location :=
  match p.anchor with
  | .relative => s.workingDirectory
  | _ => []

/-- The location that a path leads to, and what stands there. -/
def follow (s : Store) (p : FilePath) : Except FileFault (Location × FileEntry) := do
  let l ← s.walk (s.start p) p.parts
  match s.get? l with
  | none => .error .notFound
  | some e => .ok (l, e)

/-- The location of a path by its names alone: `..` takes back the name before it. -/
def resolve (s : Store) (p : FilePath) : Location :=
  p.parts.foldl (fun l name => if name = (".." : Text) then l.dropLast else l ++ [name]) (s.start p)

/-- Whether a path leads to a directory. -/
def isDirectory (s : Store) (p : FilePath) : Bool :=
  match s.follow p with
  | .ok (_, .directory) => true
  | _ => false

/-- The bytes of the file that a path leads to. -/
def readBytes (s : Store) (p : FilePath) : Except ReadError (List UInt8) :=
  match s.follow p with
  | .ok (_, .file bytes) => .ok bytes
  | .ok (_, .directory) => .error (.file .isDirectory p.text)
  | .error fault => .error (.file fault p.text)

/-- The text of the file that a path leads to. -/
def readText (s : Store) (p : FilePath) : Except ReadError (List Char) := do
  let bytes ← s.readBytes p
  match Utf8.decode bytes with
  | .ok cs => .ok (normalizeLines cs)
  | .error fault => .error (.undecodable fault)

/-- The store with other bytes in the file at a location. -/
def setBytes (s : Store) (l : Location) (bytes : List UInt8) : Store :=
  { s with entries := s.entries.map fun p => if p.1 = l then (p.1, .file bytes) else p }

private theorem fst_replaced (l : Location) (bytes : List UInt8) (p : Location × FileEntry) :
    (if p.1 = l then (p.1, FileEntry.file bytes) else p).1 = p.1 := by
  split <;> rfl

/-- Writing a file moves no entry, so it makes no directory and removes none. -/
@[simp] theorem isAbove_setBytes (s : Store) (l k : Location) (bytes : List UInt8) :
    (s.setBytes l bytes).isAbove k = s.isAbove k := by
  simp [isAbove, setBytes, List.any_map, Function.comp_def, fst_replaced]

/-- After bytes were written to a file, the file holds them. -/
theorem get?_setBytes_self {s : Store} {l : Location} {old : List UInt8}
    (h : s.get? l = some (.file old)) (bytes : List UInt8) :
    (s.setBytes l bytes).get? l = some (.file bytes) := by
  have hfind : (s.setBytes l bytes).entries.find? (·.1 == l) =
      (s.entries.find? (·.1 == l)).map fun p => (p.1, FileEntry.file bytes) := by
    simp only [setBytes, List.find?_map, Function.comp_def, fst_replaced]
    cases hf : s.entries.find? (·.1 == l) with
    | none => rfl
    | some p =>
      have hp : p.1 = l := by simpa using List.find?_some hf
      simp [hp]
  simp only [get?] at h ⊢
  cases hf : s.entries.find? (·.1 == l) with
  | none => simp [hf] at h
  | some p => simp [hfind, hf]

/-- Writing a file changes nothing elsewhere. -/
theorem get?_setBytes_of_ne (s : Store) {l k : Location} (h : k ≠ l) (bytes : List UInt8) :
    (s.setBytes l bytes).get? k = s.get? k := by
  have hfind : (s.setBytes l bytes).entries.find? (·.1 == k) = s.entries.find? (·.1 == k) := by
    simp only [setBytes, List.find?_map, Function.comp_def, fst_replaced]
    cases hf : s.entries.find? (·.1 == k) with
    | none => rfl
    | some p =>
      have hp : p.1 = k := by simpa using List.find?_some hf
      simp [hp, h]
  simp only [get?, hfind, isAbove_setBytes]

/-- The store with a text in the file that a path leads to. -/
def writeText (s : Store) (p : FilePath) (text : List Char) : Store :=
  match s.follow p with
  | .ok (l, .file _) => s.setBytes l (Utf8.encode text)
  | _ => s

/-- The names that lead from a location down to each file below it. -/
def filesBelow (s : Store) (l : Location) : List (List Text) :=
  s.entries.filterMap fun (k, e) =>
    match e with
    | .file _ => if l.isPrefixOf k then some (k.drop l.length) else none
    | .directory => none

end Store

end LodashStyle
