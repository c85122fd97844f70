import SymbolGraph.Graph.KeyStore
import SymbolGraph.Graph.Placement

/-!
# Keys of objects

The key that an object has while a package is graphed. Predeclared objects are keyed by name
alone. An object of the package itself is keyed by its place. An object of another package is
keyed by its name, behind the name of the type that a method or a selected field belongs to:
the graph of its own package has its place.
-/

namespace SymbolGraph

open Text

/-- Why a package cannot be graphed. -/
inductive GraphError where
  | emptyPackage (path : String)
  /-- One key for two objects, or for the package (no first object) and an object. -/
  | duplicateKey (key : String) (first : Option ObjectId) (second : ObjectId)
  /-- A declaration of something that cannot be declared. -/
  | undeclarable (name kind : String)
  deriving DecidableEq, Repr

/-- The wording of a failure to graph. -/
def GraphError.message : GraphError → String
  | .emptyPackage path => "package `" ++ path ++ "` has no files"
  | .duplicateKey key first second =>
    "def key `" ++ key ++ "` assigned to both "
      ++ (match first with
        | some obj => "Some(" ++ obj.tag ++ ")"
        | none => "None")
      ++ " and " ++ second.tag
  | .undeclarable name kind => "object `" ++ name ++ "` has unhandled kind `" ++ kind ++ "`"

/-- A package that is being graphed: its places are given out and do not change any more. -/
structure GraphContext where
  program : Program
  package : CheckedPackage
  /-- The import path of the package. -/
  unit : String
  placement : PlacementContext
  places : Placements

/-- The types through which fields were last selected. -/
abbrev Selected := Table ObjectId TypeId

namespace GraphContext

/-- The key of a predeclared name. -/
def builtinKey (name : String) : KeyedObject := ⟨.ofBuiltin name, true, false⟩

/-- Whether an object is a predeclared type. -/
def isPredeclaredType (p : Program) (o : Object) : Except Fault Bool := do
  let basic ← match o.type with
    | some type =>
      match ← p.type type with
      | .basic _ => pure true
      | _ => pure false
    | none => pure false
  return basic || (o.pkg.isNone && o.name == "error")

/-- The type that a method or a selected field of another package belongs to. -/
def ownerType? (c : GraphContext) (selected : Selected) (obj : ObjectId) (o : Object) :
    Except Fault (Option TypeId) :=
  match o.kind with
  | .func _ => c.program.receiverType? obj
  | .field _ => .ok (selected.get? obj)
  | _ => .ok none

/-- The name of a named type, or of the named type that a pointer points to. -/
def typeName? (p : Program) (type : TypeId) : Except Fault (Option String) := do
  match ← p.type (← p.deref type) with
  | .named obj _ _ => return some (← p.object obj).name
  | _ => return none

/-- The path of an object of another package. -/
def foreignPath (c : GraphContext) (selected : Selected) (obj : ObjectId) (o : Object) :
    Except Fault DefPath := do
  let owner ← match ← c.ownerType? selected obj o with
    | some type => typeName? c.program type
    | none => pure none
  return owner.toList ++ [o.name]

/-- The path of an object inside its package, if it has one. -/
def objectPath? (c : GraphContext) (selected : Selected) (obj : ObjectId) (o : Object) :
    Except Fault (Option DefPath) :=
  if o.pkg = some c.package.pkg then c.placement.localPath? c.places obj
  else some <$> c.foreignPath selected obj o

/-- The key of an object of some package, if it has a path. Several packages called `main` can
have one import path, so there the file comes first. -/
def ownedKey? (c : GraphContext) (selected : Selected) (obj : ObjectId) (o : Object)
    (pkg : PackageId) : Except Fault (Option KeyedObject) := do
  match ← c.objectPath? selected obj o with
  | none => return none
  | some path =>
    let owner ← c.program.package pkg
    let file := if owner.name = "main" then
        (o.pos.map fun pos => c.program.sources.baseName pos.file).toList else []
    let place := c.places.place? obj
    let seenOutside := isExported o.name
      && (match o.parent with
        | some parent => parent == owner.scope
        | none => true)
    return some ⟨⟨owner.path, file ++ path⟩, (place.map Placement.exported).getD seenOutside,
      (place.map Placement.packageScope).getD false⟩

/-- The key of an object that is neither predeclared by its kind nor a package name. -/
def plainKey? (c : GraphContext) (selected : Selected) (obj : ObjectId) (o : Object) :
    Except Fault (Option KeyedObject) :=
  match o.pkg with
  | none => .ok (some (builtinKey o.name))
  | some pkg => c.ownedKey? selected obj o pkg

/-- The key of an object, if it has one. -/
def objectKey? (c : GraphContext) (selected : Selected) (obj : ObjectId) :
    Except Fault (Option KeyedObject) := do
  let o ← c.program.object obj
  match o.kind with
  | .builtin => return some (builtinKey o.name)
  | .nil => return some (builtinKey "nil")
  | .package imported =>
    return some ⟨.ofPackage (← c.program.package imported).path, true, false⟩
  | .typeName =>
    if ← isPredeclaredType c.program o then return some (builtinKey o.name)
    else c.plainKey? selected obj o
  | _ => c.plainKey? selected obj o

end GraphContext

end SymbolGraph
