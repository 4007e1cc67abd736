import LodashStyle.Files.Store

/-! # Files to lint

A directory stands for the JavaScript files below it, in the order of their names, except
those of installed packages; any other path stands for itself. -/

namespace LodashStyle

/-- The directory of installed packages. -/
def packagesDirectory : Text := "node_modules"

namespace Store

/-- The JavaScript files below a location that a path leads to, outside installed packages. -/
def lintableBelow (s : Store) (p : FilePath) (l : Location) : List FilePath :=
  let found := (s.filesBelow l).map p.below
  (found.filter fun f => !f.parts.contains packagesDirectory && f.isLintable).mergeSort
    fun a b => FilePath.partsLe a.parts b.parts

/-- The files that a path stands for. -/
def expand (s : Store) (p : FilePath) : List FilePath :=
  match s.follow p with
  | .ok (l, .directory) => s.lintableBelow p l
  | _ => [p]

/-- The files that some paths stand for, path by path. -/
def collect (s : Store) (paths : List FilePath) : List FilePath := paths.flatMap s.expand

end Store

end LodashStyle
