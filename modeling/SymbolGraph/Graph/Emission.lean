import SymbolGraph.Graph.ObjectKey
import SymbolGraph.Program.TypeExpr

/-!
# Definitions and references

The files of a package are walked once, and every node adds what it has to say: declarations
add definitions, identifiers add references. A definition claims its key; a key that two
objects claim is an error, and the first error ends the walk after the node that caused it.

The order of the walk does not depend on what was found so far, so it is made first
(`graphWalk`) and then gone through (`visitAll`).
-/

namespace SymbolGraph

open Text

/-! ## The walk -/

/-- A node to visit, and the name of the struct type whose declaration it lies in. -/
structure Visit where
  node : NodeId
  structName : Option String
  deriving DecidableEq, Repr

/-- What is visited below a node: its children, but of a labelled statement only the statement
and of a branch nothing, since labels are no objects here. -/
def Visit.descend (t : SyntaxTree) (v : Visit) : Except Fault (List Visit) := do
  match ← t.kind v.node with
  | .labeledStmt _ stmt => return [⟨stmt, v.structName⟩]
  | .branchStmt .. => return []
  | .typeSpec name type _ _ =>
    match ← t.kind type with
    | .structType _ => return [⟨name, v.structName⟩, ⟨type, ← t.identName? name⟩]
    | _ => return [⟨name, v.structName⟩, ⟨type, v.structName⟩]
  | kind => return kind.children.map (⟨·, v.structName⟩)

/-- The visits of the files of a package. -/
def graphWalk (t : SyntaxTree) (files : List NodeId) : Trace Visit :=
  .concat (files.map fun file => preorder (Visit.descend t) t.depthBound ⟨file, none⟩)

/-! ## What has been found -/

/-- What has been found so far in one package, and the keys known in the session. -/
structure Emission where
  keys : KeyStore
  selected : Selected
  /-- The object that claims a key; none for the package. -/
  claims : Table String (Option ObjectId)
  /-- Where imports without a name stand. -/
  importSpans : List (FileId × Span)
  graph : PackageGraph
  /-- The first error. -/
  error : Option GraphError
  deriving Inhabited

/-- What has been found before the walk. -/
def Emission.start (keys : KeyStore) : Emission :=
  ⟨keys, .empty, .empty, [], .empty, none⟩

/-- A step that adds to what has been found. A fault ends everything but the keys that were
found before it. -/
abbrev Emit := EStateM Fault Emission

namespace Emit

/-- A question that may be a fault. -/
def ask {α : Type} (answer : Except Fault α) : Emit α :=
  match answer with
  | .ok a => pure a
  | .error f => throw f

/-- Puts an error on record, unless there is one. -/
def fail (e : GraphError) : Emit Unit :=
  modify fun s => { s with error := s.error.or (some e) }

/-- Adds a definition. -/
def addDef (d : Def) : Emit Unit :=
  modify fun s => { s with graph := { s.graph with defs := s.graph.defs ++ [d] } }

/-- Adds a reference. -/
def addRef (r : Ref) : Emit Unit :=
  modify fun s => { s with graph := { s.graph with refs := s.graph.refs ++ [r] } }

/-- Adds a documentation text. -/
def addDoc (d : Doc) : Emit Unit :=
  modify fun s => { s with graph := { s.graph with docs := s.graph.docs ++ [d] } }

/-- Lets an object claim a key. -/
def claim (key : String) (obj : Option ObjectId) : Emit Unit :=
  modify fun s => { s with claims := s.claims.insert key obj }

/-- Does something for every item in turn. -/
def each {α : Type} (f : α → Emit Unit) : List α → Emit Unit
  | [] => pure ()
  | a :: rest => do
    f a
    each f rest

end Emit

open Emit

namespace GraphContext

/-- The key of an object: the one that is known, or else the one that it has now, which is
known from then on. -/
def keyOf (c : GraphContext) (obj : ObjectId) : Emit (Option KeyedObject) := do
  match (← get).keys.find? c.package.pkg obj with
  | some k => return some k
  | none =>
    match ← ask (c.objectKey? (← get).selected obj) with
    | some k =>
      modify fun s => { s with keys := s.keys.install c.package.pkg obj k }
      return some k
    | none => return none

/-- The name of a file. -/
def fileName (c : GraphContext) (file : FileId) : String := c.program.sources.name file

/-! ## References -/

/-- Adds the reference that a node makes to an object, if the object has a key. -/
def emitRef (c : GraphContext) (node : NodeId) (obj : ObjectId) (isDef : Bool) : Emit Unit := do
  match ← c.keyOf obj with
  | none => return
  | some k =>
    let n ← ask (c.program.tree.node node)
    addRef ⟨c.unit, c.fileName n.file, n.range.span, k.key, isDef⟩

/-! ## Definitions -/

/-- The kind of definition that a declaration of an object is; `none` for package names, which
are references only. -/
def defKind? (p : Program) (obj : ObjectId) (o : Object) :
    Except Fault (Except GraphError (Option DefKind)) :=
  match o.kind with
  | .package _ => .ok (.ok none)
  | .const => .ok (.ok (some .const))
  | .typeName => .ok (.ok (some .type))
  | .var => .ok (.ok (some .var))
  | .field _ => .ok (.ok (some .field))
  | .func _ => do
    match ← p.receiver? obj with
    | some _ => return .ok (some .method)
    | none => return .ok (some .func)
  | .builtin | .nil => .ok (.error (.undeclarable o.name o.kind.word))

/-- The receiver type of a method as text, without the name of the package. -/
def receiverText? (c : GraphContext) (obj : ObjectId) : Except Fault (Option String) := do
  match ← c.program.receiverType? obj with
  | some type =>
    let text ← c.program.typeText type
    return some (String.ofList (replaceFirst (c.unit.toList ++ ['.']) [] text.toList))
  | none => return none

/-- The texts of an object's type and of what remains of it without names. -/
def typeTexts (p : Program) : Option TypeId → Except Fault (String × String)
  | some type => do
    let text ← p.typeText type
    let underlying ← p.typeText (← p.underlying type)
    return (text, underlying)
  | none => return ("", "")

/-- The definition of an object by a declaration. -/
def definition (c : GraphContext) (structName : Option String) (decl name : NodeId)
    (obj : ObjectId) (o : Object) (kind : DefKind) (k : KeyedObject) : Except Fault Def := do
  let receiver ← c.receiverText? obj
  let (typeText, underlyingText) ← typeTexts c.program o.type
  let nameNode ← c.program.tree.node name
  let declNode ← c.program.tree.node decl
  return { name := o.name
           key := k.key
           file := c.fileName nameNode.file
           identSpan := nameNode.range.span
           declSpan := declNode.range.span
           exported := k.exported
           packageScope := k.packageScope
           kind := kind
           receiver := receiver
           structName := if kind = .field then structName else none
           typeText := typeText
           underlyingText := underlyingText }

/-- Adds the definition of an object, unless it has one already or its key is taken. -/
def emitDef (c : GraphContext) (structName : Option String) (decl name : NodeId)
    (obj : ObjectId) (o : Object) (kind : DefKind) : Emit Unit := do
  match ← c.keyOf obj with
  | none => return
  | some k =>
    match (← get).claims.get? k.key.text with
    | some (some first) =>
      if first = obj then return else fail (.duplicateKey k.key.text (some first) obj)
    | some none => fail (.duplicateKey k.key.text none obj)
    | none =>
      claim k.key.text (some obj)
      addDef (← ask (c.definition structName decl name obj o kind k))

/-- The object that a name declares; none for other nodes, for the blank name, and for names
that declare nothing. -/
def declared? (c : GraphContext) (name : NodeId) : Except Fault (Option ObjectId) := do
  match ← c.program.tree.identName? name with
  | some "_" => return none
  | some _ => return c.package.facts.defs.get? name
  | none => return none

/-- Adds the definition that a name makes in a declaration, if it makes one. -/
def declare (c : GraphContext) (structName : Option String) (decl name : NodeId) :
    Emit Unit := do
  match ← ask (c.declared? name) with
  | none => return
  | some obj =>
    let o ← ask (c.program.object obj)
    match ← ask (defKind? c.program obj o) with
    | .error e => fail e
    | .ok none => return
    | .ok (some kind) => c.emitDef structName decl name obj o kind

/-! ## Visits -/

/-- The names that a node presents as declared. An embedded field is declared by the name of
its type. -/
def declaredNames (t : SyntaxTree) : NodeKind → Except Fault (List NodeId)
  | .typeSpec name _ _ _ => .ok [name]
  | .funcDecl _ name _ _ _ => .ok [name]
  | .valueSpec names _ _ _ _ => .ok names
  | .assignStmt left _ _ => .ok left
  | .rangeStmt key value _ _ => .ok (key.toList ++ value.toList)
  | .field names type _ _ => do
    match ← t.kind type with
    | .starExpr operand => return [type, operand] ++ names
    | _ => return type :: names
  | _ => .ok []

/-- What a node says apart from its declarations. -/
def visitUses (c : GraphContext) (node : NodeId) : NodeKind → Emit Unit
  | .file name _ _ _ => do
    let file ← ask (c.program.tree.file node)
    let range ← ask (c.program.tree.range name)
    addRef ⟨c.unit, c.fileName file, range.span, .ofPackage c.unit, false⟩
  | .importSpec .. => do
    match c.package.facts.implicits.get? node with
    | none => return
    | some obj =>
      c.emitRef node obj false
      let n ← ask (c.program.tree.node node)
      modify fun s => { s with importSpans := (n.file, n.range.span) :: s.importSpans }
  | .typeSpec _ type _ _ => do
    let _ ← ask (c.program.tree.kind type)
    return
  | .selectorExpr .. => do
    match c.package.facts.selections.get? node with
    | none => return
    | some selection =>
      let type ← ask (c.program.declaringType selection)
      modify fun s => { s with selected := s.selected.insert selection.obj type }
  | .ident "_" => return
  | .ident _ => do
    match c.package.facts.objectOf? node with
    | none => return
    | some obj =>
      let n ← ask (c.program.tree.node node)
      if (← get).importSpans.contains (n.file, n.range.span) then return
      else if c.package.facts.isDef node then
        let o ← ask (c.program.object obj)
        c.emitRef node obj (!o.kind.isPackage)
      else c.emitRef node obj false
  | _ => return

/-- Adds what a node has to say. -/
def visit (c : GraphContext) (v : Visit) : Emit Unit := do
  let kind ← ask (c.program.tree.kind v.node)
  each (c.declare v.structName v.node) (← ask (declaredNames c.program.tree kind))
  c.visitUses v.node kind

/-- Goes through the visits of a walk, up to the first error. -/
def visitAll (c : GraphContext) : List Visit → Emit Unit
  | [] => return
  | v :: rest => do
    c.visit v
    match (← get).error with
    | some _ => return
    | none => visitAll c rest

/-- Goes through a walk that may be cut short. -/
def visitTrace (c : GraphContext) (t : Trace Visit) : Emit Unit := do
  c.visitAll t.visited
  match (← get).error, t.fault with
  | none, some f => throw f
  | _, _ => return

/-- Adds the definition of the package itself, which stands for no text. -/
def emitPackage (c : GraphContext) : Emit Unit := do
  let package ← ask (c.program.package c.package.pkg)
  let key := DefKey.ofPackage c.unit
  claim key.text none
  let dir ← match c.package.files with
    | [] => pure "."
    | first :: _ => c.program.sources.dirName <$> ask (c.program.tree.file first)
  addDef { name := package.name
           key := key
           file := dir
           identSpan := .zero
           declSpan := .zero
           exported := true
           packageScope := false
           kind := .package
           receiver := none
           structName := none
           typeText := ""
           underlyingText := "" }

end GraphContext

end SymbolGraph
