import SymbolGraph.Text.Cut

/-!
# Paths

Slash-separated paths, compared component by component and kept as they were written. Repeated
slashes, a slash at the end and `.` inside a path are no components; `.` at the start of a
relative path is one. Nothing is looked up: `..` is a component like any other.

Main statement: `relativeTo?_eq_some_iff` (a path lies under another exactly when its components
begin with the other's).
-/

namespace SymbolGraph

open Text

/-- A path as it was written. -/
structure UnixPath where
  text : String
  deriving DecidableEq, Repr, Inhabited

namespace UnixPath

/-- A component of a path. -/
inductive Component where
  | root
  | here
  | up
  | name (text : List Char)
  deriving DecidableEq, Repr

/-- A component as it is written. -/
def Component.text : Component → List Char
  | .root => ['/']
  | .here => ['.']
  | .up => ['.', '.']
  | .name text => text

/-- Whether a piece between slashes is no component. -/
def isVoid (piece : List Char) : Bool := piece == [] || piece == ['.']

/-- The component that a piece between slashes stands for. -/
def component? (piece : List Char) : Option Component :=
  if isVoid piece then none
  else if piece = ['.', '.'] then some .up
  else some (.name piece)

/-- Whether a text begins with a slash. -/
def hasRoot (text : List Char) : Bool := text.head? == some '/'

/-- Whether a text begins with a single full stop as its first component. -/
def startsHere (text : List Char) : Bool := firstPiece '/' text == ['.']

/-- The components of a text. -/
def componentsOf (text : List Char) : List Component :=
  let body := (splitOn '/' text).filterMap component?
  if hasRoot text then .root :: body
  else if startsHere text then .here :: body
  else body

/-- The components of a path. -/
def components (p : UnixPath) : List Component := componentsOf p.text.toList

/-- Whether two paths have the same components. -/
def same (p q : UnixPath) : Bool := p.components == q.components

/-- Whether a path begins with a slash. -/
def isAbsolute (p : UnixPath) : Bool := hasRoot p.text.toList

/-- `q` seen from the directory `p`: `q` itself if it is absolute, else `q` behind `p` and a
slash. -/
def join (p q : UnixPath) : UnixPath :=
  let base := p.text.toList
  let rest := q.text.toList
  if hasRoot rest then q
  else if base.isEmpty || base.getLast? == some '/' then ⟨String.ofList (base ++ rest)⟩
  else ⟨String.ofList (base ++ '/' :: rest)⟩

/-- The path without its last component; `none` for the root and the empty path. -/
def parent? (p : UnixPath) : Option UnixPath :=
  let text := p.text.toList
  let front := if hasRoot text || startsHere text then 1 else 0
  match ((splitOn '/' (text.drop front)).reverse).dropWhile isVoid with
  | _ :: before =>
    some ⟨String.ofList (text.take front ++ Text.join ['/'] (before.dropWhile isVoid).reverse)⟩
  | [] => if startsHere text then some ⟨""⟩ else none

/-- The last component of a path, if it is a name. -/
def fileName? (p : UnixPath) : Option String :=
  match p.components.getLast? with
  | some (.name text) => some (String.ofList text)
  | _ => none

/-- The path and its parents, at most `n` of them. -/
def ancestorsUpTo : (n : Nat) → UnixPath → List UnixPath
  | 0, _ => []
  | n + 1, p =>
    match p.parent? with
    | some q => p :: ancestorsUpTo n q
    | none => [p]

/-- The path, its parent, the parent's parent and so on. -/
def ancestors (p : UnixPath) : List UnixPath := ancestorsUpTo (p.text.length + 2) p

/-- What follows `base` in a list of components that begins with it. -/
def stripComponents? : (base path : List Component) → Option (List Component)
  | [], path => some path
  | _ :: _, [] => none
  | b :: base, c :: path => if b = c then stripComponents? base path else none

/-- The components of a path below a directory, if it lies there. -/
def relativeTo? (p base : UnixPath) : Option (List Component) :=
  stripComponents? base.components p.components

/-- Whether a path lies below a directory or is that directory. -/
def isUnder (p base : UnixPath) : Bool := (p.relativeTo? base).isSome

/-- Components with slashes between them. -/
def slashed (cs : List Component) : String :=
  String.ofList (Text.join ['/'] (cs.map Component.text))

/-- Taking a base away succeeds exactly where the path begins with its components. -/
theorem stripComponents?_eq_some_iff {base path rest : List Component} :
    stripComponents? base path = some rest ↔ path = base ++ rest := by
  induction base generalizing path with
  | nil => simp [stripComponents?]
  | cons b base ih =>
    cases path with
    | nil => simp [stripComponents?]
    | cons c path =>
      by_cases h : b = c
      · simp [stripComponents?, h, ih]
      · simp [stripComponents?, h, Ne.symm h]

/-- A path lies under another exactly when its components begin with the other's. -/
theorem relativeTo?_eq_some_iff {p base : UnixPath} {rest : List Component} :
    p.relativeTo? base = some rest ↔ p.components = base.components ++ rest :=
  stripComponents?_eq_some_iff

/-! ## Cleaning -/

/-- One step of cleaning: names are added, `..` takes the last name back and stops at the
root, `.` does nothing. -/
def cleanStep (done : List Component) : Component → List Component
  | .root => [.root]
  | .here => done
  | .up =>
    match done.reverse with
    | .name _ :: before => before.reverse
    | _ => done
  | .name text => done ++ [.name text]

/-- The components of a path that holds neither `.` nor `..`, taking each `..` as its name
says and not as a file system would. -/
def clean (cs : List Component) : List Component := cs.foldl cleanStep []

/-- A list of components as a path. -/
def ofComponents : List Component → UnixPath
  | .root :: rest => ⟨"/" ++ slashed rest⟩
  | cs => ⟨slashed cs⟩

/-- `path` seen from `root`, without `.` and `..`. -/
def absolutize (root path : UnixPath) : UnixPath :=
  ofComponents (clean (root.join path).components)

end UnixPath

end SymbolGraph
