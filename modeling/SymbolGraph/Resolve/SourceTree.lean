import SymbolGraph.Config
import SymbolGraph.Text.Quoted
import SymbolGraph.UnixPath

/-!
# Source trees

Where packages lie on disk: the tree being graphed with the vendor directories that belong to
it, and the workspace in which the directory of an imported package is looked for. Which
directories exist is the caller's to say.
-/

namespace SymbolGraph

open Text

/-- The tree being graphed. A vendor root holds packages under their import paths. -/
structure SourceTree where
  root : UnixPath
  vendorRoots : List UnixPath
  deriving DecidableEq, Repr, Inhabited

namespace SourceTree

/-- A tree without vendor roots. -/
def ofRoot (root : UnixPath) : SourceTree := ⟨root, []⟩

/-- Adds a vendor root, seen from the tree's root, unless it is there already. -/
def addVendorRoot (t : SourceTree) (dir : UnixPath) : SourceTree :=
  let dir := t.root.join dir
  if t.vendorRoots.any dir.same then t else { t with vendorRoots := t.vendorRoots ++ [dir] }

/-- The vendor roots that tools lay out near the top of a tree. -/
def knownVendorDirs : List UnixPath := [⟨"Godeps/_workspace/src"⟩, ⟨"vendor/src"⟩]

/-- Those of the known vendor directories that exist below a root. -/
def discoverVendorRoots (isDir : UnixPath → Bool) (root : UnixPath) : List UnixPath :=
  (knownVendorDirs.map root.join).filter isDir

/-- The tree of a configuration: the configured vendor directories, the `src` of every
workspace directory, and the known vendor directories that exist. -/
def ofConfig (isDir : UnixPath → Bool) (root : UnixPath) (c : Config) : SourceTree :=
  let dirs := c.vendorDirs.map UnixPath.mk ++ c.goPathDirs.map (·.join ⟨"src"⟩)
    ++ discoverVendorRoots isDir root
  dirs.foldl addVendorRoot (ofRoot root)

/-- The import path without everything up to its last element `vendor`. -/
def dropVendor (path : String) : String :=
  match splitLast? "vendor/".toList path.toList with
  | some (before, after) =>
    if before.isEmpty || before.getLast? == some '/' then String.ofList after else path
  | none => path

/-- The unit of the package in a directory; `none` outside the tree. Below a vendor root that
is the path from there, elsewhere the import path after `vendor`. -/
def unitFor? (t : SourceTree) (dir : UnixPath) (path : String) : Option String :=
  match t.vendorRoots.findSome? dir.relativeTo? with
  | some rest => some (UnixPath.slashed rest)
  | none => if dir.isUnder t.root then some (dropVendor path) else none

/-- The form used in listings. -/
def describe (t : SourceTree) : String :=
  "TreeLayout \x7b root: " ++ quoted t.root.text ++ ", vendor_roots: ["
    ++ joinStrings ", " (t.vendorRoots.map fun r => quoted r.text) ++ "] \x7d"

end SourceTree

/-- Where imported packages are looked for. -/
structure Workspace where
  goRoot : Option UnixPath
  goPaths : List UnixPath
  deriving DecidableEq, Repr, Inhabited

namespace Workspace

/-- Adds a directory unless it is there already. -/
def addDir (dirs : List UnixPath) (dir : UnixPath) : List UnixPath :=
  if dirs.any dir.same then dirs else dirs ++ [dir]

/-- The workspace of a configuration. The language's own packages are looked for where the
configuration says, else where the environment says; the configured workspace directories come
after those of the environment. -/
def ofConfig (envGoRoot envGoPath : Option String) (c : Config) : Workspace where
  goRoot := (c.goRootDir?).or (envGoRoot.map UnixPath.mk)
  goPaths :=
    let env := (envGoPath.map splitDirs).getD []
    c.goPathDirs.foldl addDir (env.map UnixPath.mk)

/-- The places where a package can be, seen from a directory: the `vendor` directories of that
directory and those above it, then the `src` directories of the workspace. -/
def candidates (w : Workspace) (path : String) (srcDir : UnixPath) : List UnixPath :=
  srcDir.ancestors.map (fun dir => (dir.join ⟨"vendor"⟩).join ⟨path⟩)
    ++ (w.goRoot.toList ++ w.goPaths).map fun root => (root.join ⟨"src"⟩).join ⟨path⟩

/-- The directory of an imported package: the first candidate that exists. -/
def findDir? (w : Workspace) (isDir : UnixPath → Bool) (path : String) (srcDir : UnixPath) :
    Option UnixPath := (w.candidates path srcDir).find? isDir

end Workspace

end SymbolGraph
