import SymbolGraph.Source.Position
import SymbolGraph.Text.Cut

/-!
# The records of a package graph

A package graph lists the definitions of one package, the references its identifiers make, and
its documentation. A definition is named by a key: the import path of its package and a path of
names inside it.
-/

namespace SymbolGraph

/-- The components of a definition's place inside its package. -/
abbrev DefPath := List String

/-- The identity of a definition: its package's import path and its place inside. -/
structure DefKey where
  pkg : String
  path : DefPath
  deriving DecidableEq, Repr, Inhabited

namespace DefKey

/-- The key of a package itself. -/
def ofPackage (importPath : String) : DefKey := ⟨importPath, []⟩

/-- The import path under which predeclared names are keyed. -/
def builtinPackage : String := "builtin"

/-- The key of a predeclared name. -/
def ofBuiltin (name : String) : DefKey := ⟨builtinPackage, [name]⟩

/-- The path with slashes between its components. -/
def joinedPath (k : DefKey) : String := Text.joinStrings "/" k.path

/-- The key as one text, by which keys are told apart and named in messages. -/
def text (k : DefKey) : String := k.pkg ++ "#" ++ k.joinedPath

/-- Whether a path comes before another, component by component. -/
def pathLt : DefPath → DefPath → Bool
  | _, [] => false
  | [], _ :: _ => true
  | a :: as, b :: bs => if a = b then pathLt as bs else decide (a < b)

/-- The order of keys: by import path, then by path. -/
def lt (a b : DefKey) : Bool :=
  if a.pkg = b.pkg then pathLt a.path b.path else decide (a.pkg < b.pkg)

/-- Keys in increasing order. -/
def sorted (keys : List DefKey) : List DefKey := keys.mergeSort fun a b => !lt b a

end DefKey

/-- What a definition defines. -/
inductive DefKind where
  | package
  | const
  | type
  | var
  | func
  | method
  | field
  deriving DecidableEq, Repr, Inhabited

/-- The word for a kind in records. -/
def DefKind.word : DefKind → String
  | .package => "package"
  | .const => "const"
  | .type => "type"
  | .var => "var"
  | .func => "func"
  | .method => "method"
  | .field => "field"

/-- One declaring identifier. -/
structure Def where
  name : String
  key : DefKey
  file : String
  identSpan : Span
  declSpan : Span
  exported : Bool
  packageScope : Bool
  kind : DefKind
  /-- The receiver type of a method, without the name of its package. -/
  receiver : Option String
  /-- The named struct type that a field was declared in. -/
  structName : Option String
  typeText : String
  underlyingText : String
  deriving DecidableEq, Repr, Inhabited

/-- One identifier and the definition it refers to. -/
structure Ref where
  /-- The import path of the package that the identifier stands in. -/
  unit : String
  file : String
  span : Span
  target : DefKey
  isDef : Bool
  deriving DecidableEq, Repr, Inhabited

/-- The form of a documentation text. -/
inductive DocFormat where
  | html
  | plain
  deriving DecidableEq, Repr, Inhabited

/-- The media type of a form. -/
def DocFormat.mime : DocFormat → String
  | .html => "text/html"
  | .plain => "text/plain"

/-- The documentation of a definition, or a comment of its own when there is no key. -/
structure Doc where
  key : Option DefKey
  unit : String
  format : DocFormat
  data : String
  file : String
  span : Span
  deriving DecidableEq, Repr, Inhabited

/-- All that is recorded about one package. -/
structure PackageGraph where
  defs : List Def
  refs : List Ref
  docs : List Doc
  deriving DecidableEq, Repr, Inhabited

namespace PackageGraph

/-- The graph without records. -/
def empty : PackageGraph := ⟨[], [], []⟩

/-- The first definition with a path. -/
def defAt? (g : PackageGraph) (path : DefPath) : Option Def :=
  g.defs.find? fun d => d.key.path == path

/-- The references that cover exactly a span of a file. -/
def refsAt (g : PackageGraph) (file : String) (span : Span) : List Ref :=
  g.refs.filter fun r => r.file == file && r.span == span

end PackageGraph

end SymbolGraph
