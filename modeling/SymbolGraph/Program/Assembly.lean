import SymbolGraph.Program.Basic
import SymbolGraph.Text.Search

/-!
# Putting a program together

A program is made step by step: packages and their files, the entities that a checker found,
syntax nodes from the leaves up, and the facts that tie nodes to entities. The universe of
predeclared names is there from the start. A step that uses a number which was never given out
is a fault.

Ranges of nodes can be given by what stands there, since the text of every file is known.
-/

namespace SymbolGraph

open Text

/-- A program in the making, with the package and scope of each file. -/
structure Assembly where
  program : Program
  /-- The packages in the order in which they were made; a package's number is its place. -/
  packages : Array CheckedPackage
  fileScopes : Table FileId ScopeId
  filePackages : Table FileId PackageId
  deriving Inhabited

namespace Assembly

/-! ## Entities -/

/-- Adds an object. -/
def addObject (a : Assembly) (o : Object) : ObjectId × Assembly :=
  (⟨a.program.objects.size⟩,
    { a with program := { a.program with objects := a.program.objects.push o } })

/-- Adds a type. -/
def addType (a : Assembly) (t : GoType) : TypeId × Assembly :=
  (⟨a.program.types.size⟩,
    { a with program := { a.program with types := a.program.types.push t } })

/-- Adds a scope as the last child of another. -/
def addScope (a : Assembly) (parent : ScopeId) : Except Fault (ScopeId × Assembly) := do
  let id : ScopeId := ⟨a.program.scopes.size⟩
  let scopes := a.program.scopes.push (Scope.ofParent (some parent))
  let _ ← fetch scopes parent.index
  let scopes := scopes.modify parent.index fun s => { s with children := s.children ++ [id] }
  return (id, { a with program := { a.program with scopes := scopes } })

/-- Binds an object in a scope under its own name. -/
def declare (a : Assembly) (scope : ScopeId) (obj : ObjectId) : Except Fault Assembly := do
  let o ← a.program.object obj
  let _ ← a.program.scope scope
  let objects := a.program.objects.modify obj.index fun o => { o with parent := some scope }
  let scopes := a.program.scopes.modify scope.index fun s => s.bind o.name obj
  return { a with program := { a.program with objects := objects, scopes := scopes } }

/-- Gives an object a type. -/
def setType (a : Assembly) (obj : ObjectId) (type : TypeId) : Except Fault Assembly := do
  let _ ← a.program.object obj
  let objects := a.program.objects.modify obj.index fun o => { o with type := some type }
  return { a with program := { a.program with objects := objects } }

/-- Adds the named type of a type name and gives it to the name. Its underlying type is set
later, since it may refer back to it. -/
def addNamed (a : Assembly) (obj : ObjectId) : Except Fault (TypeId × Assembly) := do
  let (type, a) := a.addType (.named obj none [])
  return (type, ← a.setType obj type)

/-- A named type with an underlying type; other types stay. -/
def withUnderlying (underlying : TypeId) : GoType → GoType
  | .named obj _ methods => .named obj (some underlying) methods
  | t => t

/-- A named type with one more method; other types stay. -/
def withMethod (method : ObjectId) : GoType → GoType
  | .named obj underlying methods => .named obj underlying (methods ++ [method])
  | t => t

/-- Changes a type. -/
def changeType (a : Assembly) (id : TypeId) (f : GoType → GoType) : Except Fault Assembly := do
  let _ ← a.program.type id
  return { a with program := { a.program with types := a.program.types.modify id.index f } }

/-- Sets the underlying type of a named type. -/
def setUnderlying (a : Assembly) (named underlying : TypeId) : Except Fault Assembly :=
  a.changeType named (withUnderlying underlying)

/-- Adds a method to a named type. -/
def addMethod (a : Assembly) (named : TypeId) (method : ObjectId) : Except Fault Assembly :=
  a.changeType named (withMethod method)

/-! ## The universe -/

/-- The names of the predeclared types that have no parts. -/
def basicTypes : List String :=
  ["bool", "int", "int8", "int16", "int32", "int64", "uint", "uint8", "uint16", "uint32",
    "uint64", "uintptr", "float32", "float64", "complex64", "complex128", "string", "byte",
    "rune"]

/-- The names of the predeclared functions. -/
def builtinFuncs : List String :=
  ["append", "cap", "close", "complex", "copy", "delete", "imag", "len", "make", "new",
    "panic", "print", "println", "real", "recover"]

/-- A predeclared object without a place. -/
def predeclared (name : String) (kind : ObjectKind) (type : Option TypeId) : Object :=
  ⟨name, kind, none, none, none, type⟩

/-- Adds a predeclared object and binds it in the universe. -/
def predeclare (a : Assembly) (o : Object) : Except Fault Assembly :=
  let (id, a) := a.addObject o
  a.declare Program.predeclared id

/-- The object that a predeclared name is bound to. -/
def universeObject? (a : Assembly) (name : String) : Option ObjectId :=
  match a.program.scope Program.predeclared with
  | .ok s => s.lookup? name
  | .error _ => none

/-- The type that a predeclared name stands for. -/
def universeType (a : Assembly) (name : String) : Except Fault TypeId :=
  match a.universeObject? name with
  | some id => do
    match (← a.program.object id).type with
    | some type => return type
    | none => throw (.notPredeclared name)
  | none => throw (.notPredeclared name)

/-- The assembly before anything is in it. -/
def bare : Assembly where
  program := ⟨.empty, .empty, #[], #[], #[Scope.ofParent none], #[]⟩
  packages := #[]
  fileScopes := .empty
  filePackages := .empty

/-- Adds the predeclared names: the basic types, `error` with its method, the constants, the
functions and `nil`. -/
def populate (a : Assembly) : Except Fault Assembly := do
  let mut a := a
  for name in basicTypes do
    let (type, next) := a.addType (.basic name)
    a ← next.predeclare (predeclared name .typeName (some type))
  let string ← a.universeType "string"
  let bool ← a.universeType "bool"
  let int ← a.universeType "int"
  let (result, a₁) := a.addObject (predeclared "" .var (some string))
  let (signature, a₂) := a₁.addType (.signature none [] [result] false)
  let (method, a₃) := a₂.addObject (predeclared "Error" (.func none) (some signature))
  let (interface, a₄) := a₃.addType (.interface [method] [])
  let (error, a₅) := a₄.addObject (predeclared "error" .typeName none)
  let (named, a₆) ← a₅.addNamed error
  a ← a₆.setUnderlying named interface
  a ← a.declare Program.predeclared error
  for (name, type) in [("true", bool), ("false", bool), ("iota", int)] do
    a ← a.predeclare (predeclared name .const (some type))
  for name in builtinFuncs do
    a ← a.predeclare (predeclared name .builtin none)
  a.predeclare (predeclared "nil" .nil none)

/-- The assembly in which only the predeclared names are known. -/
def initial : Except Fault Assembly := bare.populate

/-! ## Packages and files -/

/-- Adds a package with its scope. -/
def addPackage (a : Assembly) (path name : String) : Except Fault (PackageId × Assembly) := do
  let (scope, a) ← a.addScope Program.predeclared
  let id : PackageId := ⟨a.program.packages.size⟩
  return (id, { a with
    program := { a.program with packages := a.program.packages.push ⟨path, name, scope⟩ }
    packages := a.packages.push (.ofId id) })

/-- The scope of a package's top-level names. -/
def packageScope (a : Assembly) (pkg : PackageId) : Except Fault ScopeId :=
  (·.scope) <$> a.program.package pkg

/-- Registers a file of a package and makes its scope. -/
def addFile (a : Assembly) (pkg : PackageId) (name text : String) :
    Except Fault (FileId × Assembly) := do
  let parent ← a.packageScope pkg
  let (file, sources) := a.program.sources.add name text
  let a := { a with program := { a.program with sources := sources } }
  let (scope, a) ← a.addScope parent
  return (file, { a with
    fileScopes := a.fileScopes.insert file scope
    filePackages := a.filePackages.insert file pkg })

/-- The scope of a file. -/
def fileScope (a : Assembly) (file : FileId) : Except Fault ScopeId :=
  match a.fileScopes.get? file with
  | some scope => .ok scope
  | none => .error (.unregistered file)

/-- Changes the package that a file belongs to. -/
def changePackage (a : Assembly) (file : FileId) (f : CheckedPackage → CheckedPackage) :
    Except Fault Assembly := do
  match a.filePackages.get? file with
  | some pkg =>
    let _ ← fetch a.packages pkg.index
    return { a with packages := a.packages.modify pkg.index f }
  | none => throw (.unregistered file)

/-- Changes the facts of the package that a node belongs to. -/
def changeFacts (a : Assembly) (node : NodeId) (f : Facts → Facts) : Except Fault Assembly := do
  let file ← a.program.tree.file node
  a.changePackage file fun p => { p with facts := f p.facts }

/-! ## Finding text -/

/-- The range of the `nth` place, counted from zero, at which a text is found in a file. -/
def tryFind (a : Assembly) (file : FileId) (needle : String) (nth : Nat) :
    Except Fault (Option TextRange) :=
  match findNth? needle.toList (a.program.sources.text file).toList nth with
  | none => .ok none
  | some start =>
    match TextRange.ofBounds? (UInt32.ofNat start)
        (UInt32.ofNat (start + byteLength needle.toList)) with
    | some r => .ok (some r)
    | none => .error .outOfRange

/-- The range at which a text has to be found in a file. -/
def find (a : Assembly) (file : FileId) (needle : String) (nth : Nat) :
    Except Fault TextRange := do
  match ← a.tryFind file needle nth with
  | some r => return r
  | none => throw (.notFound nth needle (a.program.sources.name file))

/-- The position at which a text has to be found in a file. -/
def pos (a : Assembly) (file : FileId) (needle : String) (nth : Nat) : Except Fault Pos := do
  return ⟨file, (← a.find file needle nth).start⟩

/-- The lines of a text, without their ends and without an empty last one. -/
def textLines (text : List Char) : List (List Char) :=
  let lines := splitOn '\n' text
  let lines := if lines.getLast? == some [] then lines.dropLast else lines
  lines.map fun line => (stripEnd? ['\r'] line).getD line

/-- The comment group for a comment that has to be found in a file. A block comment is one
token, line comments are one token a line. -/
def comment (a : Assembly) (file : FileId) (text : String) (nth : Nat) :
    Except Fault CommentGroup := do
  let range ← a.find file text nth
  let tokens :=
    if startsWith ['/', '*'] text.toList then [text]
    else (textLines text.toList).map fun line => String.ofList (trim isBlank line)
  return ⟨file, range, tokens⟩

/-! ## Nodes -/

/-- Makes a node. -/
def addNode (a : Assembly) (file : FileId) (range : TextRange) (kind : NodeKind) :
    NodeId × Assembly :=
  let (id, tree) := a.program.tree.alloc file range kind
  (id, { a with program := { a.program with tree := tree } })

/-- Makes a node that covers all of its children, in the file of the first. -/
def wrap (a : Assembly) (kind : NodeKind) : Except Fault (NodeId × Assembly) := do
  match kind.children with
  | [] => throw (.childless kind.word)
  | first :: rest =>
    let start ← a.program.tree.range first
    let ranges ← rest.mapM a.program.tree.range
    let file ← a.program.tree.file first
    return a.addNode file (ranges.foldl TextRange.cover start) kind

/-- Makes an identifier where its name is found. -/
def ident (a : Assembly) (file : FileId) (name : String) (nth : Nat) :
    Except Fault (NodeId × Assembly) := do
  let range ← a.find file name nth
  return a.addNode file range (.ident name)

/-- Records the object that an identifier declares. -/
def define (a : Assembly) (ident : NodeId) (obj : ObjectId) : Except Fault Assembly :=
  a.changeFacts ident fun f => { f with defs := f.defs.insert ident obj }

/-- Records the object that an identifier uses. -/
def recordUse (a : Assembly) (ident : NodeId) (obj : ObjectId) : Except Fault Assembly :=
  a.changeFacts ident fun f => { f with uses := f.uses.insert ident obj }

/-- Records the object that a node declares without an identifier. -/
def recordImplicit (a : Assembly) (node : NodeId) (obj : ObjectId) : Except Fault Assembly :=
  a.changeFacts node fun f => { f with implicits := f.implicits.insert node obj }

/-- Records what a selector means. -/
def recordSelection (a : Assembly) (node : NodeId) (s : Selection) : Except Fault Assembly :=
  a.changeFacts node fun f => { f with selections := f.selections.insert node s }

/-- Records the scope that a node introduces. -/
def recordScope (a : Assembly) (node : NodeId) (scope : ScopeId) : Except Fault Assembly :=
  a.changeFacts node fun f => { f with scopes := f.scopes.insert node scope }

/-- Makes an identifier that declares an object. -/
def defIdent (a : Assembly) (file : FileId) (name : String) (nth : Nat) (obj : ObjectId) :
    Except Fault (NodeId × Assembly) := do
  let (id, a) ← a.ident file name nth
  return (id, ← a.define id obj)

/-- Makes an identifier that uses an object. -/
def useIdent (a : Assembly) (file : FileId) (name : String) (nth : Nat) (obj : ObjectId) :
    Except Fault (NodeId × Assembly) := do
  let (id, a) ← a.ident file name nth
  return (id, ← a.recordUse id obj)

/-- Makes the node of a whole file and records it, with its scope, for the file's package. -/
def finishFile (a : Assembly) (file : FileId) (name : NodeId) (decls : List NodeId)
    (doc : Option CommentGroup) (comments : List CommentGroup) :
    Except Fault (NodeId × Assembly) := do
  let size := UInt32.ofNat (byteLength (a.program.sources.text file).toList)
  let (node, a) := a.addNode file (.upTo size) (.file name decls doc comments)
  let scope ← a.fileScope file
  let a ← a.changePackage file fun p => { p with
    files := p.files ++ [node]
    facts := { p.facts with scopes := p.facts.scopes.insert node scope } }
  return (node, a)

end Assembly

end SymbolGraph
