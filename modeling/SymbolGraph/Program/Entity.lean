import SymbolGraph.Program.Id
import SymbolGraph.Source.Position
import SymbolGraph.Table

/-!
# Objects, scopes and types

What a type checker finds in a program: objects (everything that has a name), the scopes that
bind names to objects, types, packages, and for each package the tables that tie its syntax to
all of these.
-/

namespace SymbolGraph

/-- What an object is. -/
inductive ObjectKind where
  /-- The name of an imported package. -/
  | package (imported : PackageId)
  | const
  | typeName
  | var
  /-- A struct field; an embedded field is named by its type. -/
  | field (embedded : Bool)
  /-- A function or method, with its scope if it has a body. -/
  | func (scope : Option ScopeId)
  /-- A predeclared function. -/
  | builtin
  | nil
  deriving DecidableEq, Repr, Inhabited

/-- The word for a kind of object. -/
def ObjectKind.word : ObjectKind → String
  | .package _ => "package"
  | .const => "const"
  | .typeName => "type"
  | .var => "var"
  | .field _ => "field"
  | .func _ => "func"
  | .builtin => "builtin"
  | .nil => "nil"

/-- Whether an object is the name of an imported package. -/
def ObjectKind.isPackage : ObjectKind → Bool
  | .package _ => true
  | _ => false

/-- A declared entity. -/
structure Object where
  name : String
  kind : ObjectKind
  /-- The package that owns it; none for predeclared objects. -/
  pkg : Option PackageId
  /-- The scope it is bound in; fields and methods are bound in none. -/
  parent : Option ScopeId
  pos : Option Pos
  type : Option TypeId
  deriving DecidableEq, Repr, Inhabited

/-- A lexical scope. Its bindings are in increasing order of their names, its children in the
order in which they were made. -/
structure Scope where
  parent : Option ScopeId
  children : List ScopeId
  bindings : List (String × ObjectId)
  deriving DecidableEq, Repr, Inhabited

namespace Scope

/-- A scope without bindings. -/
def ofParent (parent : Option ScopeId) : Scope := ⟨parent, [], []⟩

/-- Adds a binding to a list in increasing order of names, replacing one of the same name. -/
def bindIn (name : String) (obj : ObjectId) :
    List (String × ObjectId) → List (String × ObjectId)
  | [] => [(name, obj)]
  | (n, o) :: rest =>
    if name = n then (n, obj) :: rest
    else if name < n then (name, obj) :: (n, o) :: rest
    else (n, o) :: bindIn name obj rest

/-- Binds a name, replacing an earlier binding. -/
def bind (s : Scope) (name : String) (obj : ObjectId) : Scope :=
  { s with bindings := bindIn name obj s.bindings }

/-- The object that a name is bound to in the scope itself. -/
def lookup? (s : Scope) (name : String) : Option ObjectId :=
  (s.bindings.find? fun b => b.1 == name).map Prod.snd

/-- The place of a scope among the children. -/
def childIndex? (s : Scope) (child : ScopeId) : Option Nat := s.children.idxOf? child

end Scope

/-- The direction of a channel. -/
inductive ChanDir where
  | both
  | send
  | recv
  deriving DecidableEq, Repr, Inhabited

/-- A type, which refers to its parts by number. Fields, methods, parameters and results are
objects. -/
inductive GoType where
  | basic (name : String)
  | named (obj : ObjectId) (underlying : Option TypeId) (methods : List ObjectId)
  | pointer (elem : TypeId)
  | slice (elem : TypeId)
  | array (len : Nat) (elem : TypeId)
  | map (key value : TypeId)
  | chan (dir : ChanDir) (elem : TypeId)
  | struct (fields : List ObjectId)
  | interface (methods : List ObjectId) (embedded : List TypeId)
  | signature (recv : Option ObjectId) (params results : List ObjectId) (variadic : Bool)
  deriving DecidableEq, Repr, Inhabited

/-- A package: its import path, its name, and the scope of its top-level names. -/
structure Package where
  path : String
  name : String
  scope : ScopeId
  deriving DecidableEq, Repr, Inhabited

/-- What a selector selects. -/
inductive SelectionKind where
  | fieldVal
  | methodVal
  | methodExpr
  deriving DecidableEq, Repr, Inhabited

/-- The word for a kind of selection. -/
def SelectionKind.word : SelectionKind → String
  | .fieldVal => "FieldVal"
  | .methodVal => "MethodVal"
  | .methodExpr => "MethodExpr"

/-- What a selector expression means. -/
structure Selection where
  kind : SelectionKind
  /-- The type of the operand. -/
  recv : TypeId
  obj : ObjectId
  /-- The fields to go through from the operand to the selected member; all but the last are
  embedded. -/
  index : List Nat
  indirect : Bool
  deriving DecidableEq, Repr, Inhabited

/-- What the checker recorded about the nodes of one package. -/
structure Facts where
  /-- The objects that identifiers declare. -/
  defs : Table NodeId ObjectId
  /-- The objects that identifiers use. -/
  uses : Table NodeId ObjectId
  /-- The objects of nodes that declare without an identifier: unnamed imports. -/
  implicits : Table NodeId ObjectId
  selections : Table NodeId Selection
  /-- The scopes that nodes introduce, in the order in which they were recorded. -/
  scopes : Table NodeId ScopeId
  deriving Repr, Inhabited

namespace Facts

/-- No facts. -/
def empty : Facts := ⟨.empty, .empty, .empty, .empty, .empty⟩

/-- The object that an identifier declares or, failing that, uses. -/
def objectOf? (f : Facts) (ident : NodeId) : Option ObjectId :=
  (f.defs.get? ident).or (f.uses.get? ident)

/-- Whether an identifier declares an object. -/
def isDef (f : Facts) (ident : NodeId) : Bool := f.defs.contains ident

end Facts

/-- A package as it was checked: its files and the facts about their nodes. -/
structure CheckedPackage where
  pkg : PackageId
  files : List NodeId
  facts : Facts
  deriving Repr, Inhabited

/-- A package without files. -/
def CheckedPackage.ofId (pkg : PackageId) : CheckedPackage := ⟨pkg, [], .empty⟩

end SymbolGraph
