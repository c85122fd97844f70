import SymbolGraph.UnixPath

/-!
# Directories

The directories that exist, as far as looking for packages is concerned: a set of absolute
paths that holds with each directory the ones above it.
-/

namespace SymbolGraph

/-- A set of directories, each as the list of names that lead to it from the root. -/
structure Directories where
  dirs : List (List (List Char))
  deriving Repr, Inhabited

namespace Directories

/-- The directories passed on the way along components, the first and the last included. Each
name goes one down and each `..` one up again, at the root nowhere. -/
def passed (here : List (List Char)) : List UnixPath.Component → List (List (List Char))
  | [] => [here]
  | .root :: rest => here :: passed [] rest
  | .here :: rest => passed here rest
  | .up :: rest => here :: passed here.dropLast rest
  | .name text :: rest => here :: passed (here ++ [text]) rest

/-- Adds a directory and all directories passed on the way to it. -/
def add (d : Directories) (p : UnixPath) : Directories :=
  ⟨d.dirs ++ passed [] p.components⟩

/-- The directories of a list of paths, and the root. -/
def ofPaths (paths : List UnixPath) : Directories := paths.foldl add ⟨[[]]⟩

/-- The directory that components lead to from a directory, if all on the way exist. -/
def follow? (d : Directories) (here : List (List Char)) :
    List UnixPath.Component → Option (List (List Char))
  | [] => some here
  | .root :: rest => follow? d [] rest
  | .here :: rest => follow? d here rest
  | .up :: rest => follow? d here.dropLast rest
  | .name text :: rest =>
    let next := here ++ [text]
    if next ∈ d.dirs then follow? d next rest else none

/-- Whether an absolute path is a directory. -/
def isDir (d : Directories) (p : UnixPath) : Bool :=
  p.isAbsolute && (d.follow? [] p.components).isSome

end Directories

end SymbolGraph
