import SymbolGraph.Config
import SymbolGraph.Graph.Record
import SymbolGraph.Graph.ScopeOrigins
import SymbolGraph.Text.CharClass

/-!
# Places of objects

Every object declared in a package has a place: the labels of the scopes around its declaration,
and its name. The scopes of files and of the package have no label, that of a function is
labelled by the function's name, and any other by the file and its number among its siblings.
Methods lie below their type, fields below the type or variable that has them.

Places are given out by one walk over the scopes. An object keeps the first place it is given.
-/

namespace SymbolGraph

open Text

/-- The place of an object and how far it can be seen. -/
structure Placement where
  path : DefPath
  exported : Bool
  packageScope : Bool
  deriving DecidableEq, Repr, Inhabited

/-- What placing the objects of a package depends on. -/
structure PlacementContext where
  program : Program
  pkg : PackageId
  facts : Facts
  origins : ScopeOrigins
  labels : Labelling

/-- The places given out so far. -/
structure Placements where
  objects : Table ObjectId Placement
  scopes : Table ScopeId DefPath
  /-- The number of labels made up for scopes without a node. -/
  madeUp : Nat
  deriving Repr, Inhabited

namespace Placements

/-- The state before any place is given out. -/
def empty : Placements := ⟨.empty, .empty, 0⟩

/-- The place of an object. -/
def place? (s : Placements) (obj : ObjectId) : Option Placement := s.objects.get? obj

/-- Gives an object a place. -/
def record (s : Placements) (obj : ObjectId) (p : Placement) : Placements :=
  { s with objects := s.objects.insert obj p }

/-- Gives a scope a path. -/
def setScope (s : Placements) (scope : ScopeId) (path : DefPath) : Placements :=
  { s with scopes := s.scopes.insert scope path }

end Placements

namespace PlacementContext

/-- The context of a package. -/
def ofPackage (p : Program) (c : CheckedPackage) (labels : Labelling) :
    Except Fault PlacementContext := do
  return ⟨p, c.pkg, c.facts, ← ScopeOrigins.ofFacts p c.facts, labels⟩

/-! ## Labels -/

/-- A name made unique by its position: the file without extension, and the offset. -/
def positionTag (c : PlacementContext) (pos : Pos) : String :=
  "$" ++ c.program.sources.strippedName pos.file ++ toString pos.offset.toNat

/-- The `n`-th label for scopes without a node. -/
def madeUpLabel (labels : Labelling) (n : Nat) : String :=
  match labels with
  | .deterministic => "ERROR" ++ toString n
  | .random draws => "ERROR" ++ toString (draws n)

/-- The name of the type that a receiver has, behind at most `n` stars, brackets and the
like. -/
def receiverNameUpTo (t : SyntaxTree) : (n : Nat) → NodeId → Except Fault (Option String)
  | 0, _ => .error .endless
  | n + 1, id => do
    match ← t.kind id with
    | .starExpr operand => receiverNameUpTo t n operand
    | .ident name => return some name
    | .other _ (child :: _) => receiverNameUpTo t n child
    | _ => return none

/-- The name of the type of a method's receiver, given the list of its receivers. -/
def receiverName? (t : SyntaxTree) (recv : NodeId) : Except Fault (Option String) := do
  match ← t.kind recv with
  | .fieldList (first :: _) =>
    match ← t.kind first with
    | .field _ type _ _ => receiverNameUpTo t t.depthBound type
    | _ => return none
  | _ => return none

/-- The label of the scope of a function declaration: the receiver's type, if any, and the
name. Any number of functions are called `init`, so their labels carry the position. -/
def declLabel (c : PlacementContext) (recv : Option NodeId) (name : NodeId) :
    Except Fault (List String) := do
  let tree := c.program.tree
  let recvName ← match recv with
    | some recv => receiverName? tree recv
    | none => pure none
  let funcName := (← tree.identName? name).getD ""
  if funcName = "init" then
    let pos : Pos := ⟨← tree.file name, (← tree.range name).start⟩
    return recvName.toList ++ [funcName ++ c.positionTag pos]
  else return recvName.toList ++ [funcName]

/-- The label of a scope that a node of a file introduces: the file and the scope's number
among its siblings, below the file's label if the parent is the scope of a file. `none` for a
scope without parent. -/
def blockLabel? (c : PlacementContext) (scope : ScopeId) (node : NodeId) :
    Except Fault (Option (List String)) := do
  let p := c.program
  match (← p.scope scope).parent with
  | none => return none
  | some parent =>
    let fileLabel ← match c.origins.node? parent with
      | some parentNode =>
        if (← p.tree.kind parentNode).isFile then
          pure ["$" ++ p.sources.strippedName (← p.tree.file parentNode)]
        else pure []
      | none => pure []
    let i := ((← p.scope parent).childIndex? scope).getD 0
    return some (fileLabel ++ ["$" ++ p.sources.strippedName (← p.tree.file node) ++ toString i])

/-- The name of the function that a scope belongs to, unless it is `init`. -/
def properFuncName? (c : PlacementContext) (scope : ScopeId) : Option String :=
  (c.origins.funcName? scope).bind fun name => if name = "init" then none else some name

/-- The label of a scope; `none` if one has to be made up. -/
def scopeLabel? (c : PlacementContext) (scope : ScopeId) :
    Except Fault (Option (List String)) := do
  let tree := c.program.tree
  match c.origins.node? scope with
  | none => return none
  | some node =>
    match ← tree.kind node with
    | .file .. => return some []
    | .funcType .. =>
      match c.properFuncName? scope with
      | some name => return some [name]
      | none =>
        match (← tree.node node).parent with
        | some parent =>
          match ← tree.kind parent with
          | .funcDecl recv name _ _ _ => return some (← c.declLabel recv name)
          | _ => c.blockLabel? scope node
        | none => c.blockLabel? scope node
    | _ => c.blockLabel? scope node

/-- The path of a scope below `base`, which is kept for the next time. -/
def scopePath (c : PlacementContext) (s : Placements) (base : DefPath) (scope : ScopeId) :
    Except Fault (DefPath × Placements) := do
  match s.scopes.get? scope with
  | some path => return (path, s)
  | none =>
    match ← c.scopeLabel? scope with
    | some label =>
      let path := base ++ label
      return (path, s.setScope scope path)
    | none =>
      let path := base ++ [madeUpLabel c.labels s.madeUp]
      return (path, { s.setScope scope path with madeUp := s.madeUp + 1 })

/-- A path with a suffix on its last component. -/
def suffixLast (suffix : String) : DefPath → DefPath
  | [] => []
  | [last] => [last ++ suffix]
  | a :: b :: rest => a :: suffixLast suffix (b :: rest)

/-! ## The walk -/

/-- What is to be placed, below a path. -/
inductive Pending where
  /-- The bindings of a scope and what lies below it. -/
  | scope (scope : ScopeId) (base : DefPath) (packageScope : Bool)
  /-- A method and its body. -/
  | method (obj : ObjectId) (base : DefPath) (packageScope : Bool)
  /-- A field and the fields of its own struct type. -/
  | field (obj : ObjectId) (base : DefPath) (packageScope : Bool)
  deriving Repr, DecidableEq

/-- The methods of the type of a type name, declared ones first, then those of an interface. -/
def methodsOf (p : Program) (type : TypeId) : Except Fault (List ObjectId) := do
  let declared ← match ← p.type type with
    | .named _ _ methods => pure methods
    | _ => pure []
  match ← p.type (← p.underlying type) with
  | .interface methods _ => return declared ++ methods
  | _ => return declared

/-- What is to be placed below an object that has a type: the methods and fields of a type
name, and the fields of a variable whose type is a struct without a name. -/
def below (p : Program) (o : Object) (path : DefPath) (packageScope : Bool) :
    Except Fault (List Pending) := do
  match o.type, o.kind with
  | some type, .typeName =>
    let methods ← methodsOf p type
    let fields ← p.ownFields? (← p.deref (← p.underlying type))
    return methods.map (.method · path packageScope)
      ++ (fields.getD []).map (.field · path packageScope)
  | some type, .var =>
    let fields ← p.ownFields? (← p.deref type)
    return (fields.getD []).map (.field · path packageScope)
  | _, _ => return []

/-- Does one step after another. -/
def inTurn {α : Type} (step : Placements → α → Except Fault Placements) :
    Placements → List α → Except Fault Placements
  | s, [] => return s
  | s, a :: rest => do inTurn step (← step s a) rest

/-- Places an object that a scope binds, and what lies below it. -/
def placeBinding (c : PlacementContext) (go : Placements → Pending → Except Fault Placements)
    (base : DefPath) (packageScope : Bool) (s : Placements) (b : String × ObjectId) :
    Except Fault Placements := do
  match s.place? b.2 with
  | some _ => return s
  | none =>
    let path := base ++ [b.1]
    let s := s.record b.2 ⟨path, isExported b.1 && packageScope, packageScope⟩
    inTurn go s (← below c.program (← c.program.object b.2) path packageScope)

/-- Places the child scopes of a scope in order. A path that an earlier sibling has is told
apart by the scope's number `i`. -/
def placeChildren (c : PlacementContext) (go : Placements → Pending → Except Fault Placements)
    (base : DefPath) : (seen : List String) → (i : Nat) → Placements → List ScopeId →
      Except Fault Placements
  | _, _, s, [] => return s
  | seen, i, s, child :: rest => do
    let (path, s) ← c.scopePath s base child
    if path.isEmpty then
      placeChildren c go base seen (i + 1) (← go s (.scope child path false)) rest
    else
      let joined := joinStrings "/" path
      let path := if joined ∈ seen then suffixLast ("$" ++ toString i) path else path
      placeChildren c go base (joined :: seen) (i + 1) (← go s (.scope child path false)) rest

/-- Places what is pending and all that lies below, no more than `depth` levels deep. -/
def placeUpTo (c : PlacementContext) :
    (depth : Nat) → Placements → Pending → Except Fault Placements
  | 0, _, _ => .error .endless
  | depth + 1, s, .scope scope base packageScope => do
    let s := s.setScope scope base
    let found ← c.program.scope scope
    let s ← inTurn (placeBinding c (placeUpTo c depth) base packageScope) s found.bindings
    placeChildren c (placeUpTo c depth) base [] 0 s found.children
  | depth + 1, s, .method obj base packageScope => do
    match s.place? obj with
    | some _ => return s
    | none =>
      let o ← c.program.object obj
      let path := base ++ [o.name]
      let s := s.record obj ⟨path, isExported o.name, packageScope⟩
      match o.kind with
      | .func (some scope) => placeUpTo c depth s (.scope scope path false)
      | _ => return s
  | depth + 1, s, .field obj base packageScope => do
    match s.place? obj with
    | some _ => return s
    | none =>
      let o ← c.program.object obj
      let path := base ++ [o.name]
      let s := s.record obj ⟨path, isExported o.name, packageScope⟩
      match o.type with
      | some type =>
        let fields ← c.program.ownFields? (← c.program.deref type)
        inTurn (placeUpTo c depth) s ((fields.getD []).map (.field · path packageScope))
      | none => return s

/-- A number of levels that no walk exceeds: between two levels at which an object is placed
lie no more levels than there are scopes. -/
def depthBound (p : Program) : Nat := (p.objects.size + 2) * (p.scopes.size + 3)

/-- Places the bindings of a scope and what lies below it. -/
def placeScope (c : PlacementContext) (s : Placements) (scope : ScopeId) (base : DefPath)
    (packageScope : Bool) : Except Fault Placements :=
  c.placeUpTo (depthBound c.program) s (.scope scope base packageScope)

/-- Places everything that can be reached from the package's own scope. -/
def placePackage (c : PlacementContext) (s : Placements) : Except Fault Placements := do
  c.placeScope s (← c.program.package c.pkg).scope [] true

/-! ## Objects that the walk does not reach -/

/-- Whether, of two nodes with scopes around a position, the second one is the wider one; of
equally long ones the one made first counts as wider, then the one recorded later. -/
def isWider (a b : TextRange × NodeId) : Bool :=
  a.1.length < b.1.length || (a.1.length == b.1.length && b.2.index ≤ a.2.index)

/-- The scope of the widest node with a scope around a position. For a position inside a file
that is the scope of the file. -/
def widestScopeAt? (c : PlacementContext) (pos : Pos) : Except Fault (Option ScopeId) := do
  let tree := c.program.tree
  let found ← c.facts.scopes.entries.filterMapM fun (node, scope) => do
    let n ← tree.node node
    return if n.file = pos.file && n.range.touches pos.offset then
      some ((n.range, node), scope) else none
  return found.foldl (fun best next =>
    match best with
    | some b => if isWider b.1 next.1 then some next else some b
    | none => some next) none |>.map Prod.snd

/-- The path of an object of the package. One that the walk did not reach is put below the
widest scope around its position, or else below the scope it is bound in, under its name made
unique by its position. -/
def localPath? (c : PlacementContext) (s : Placements) (obj : ObjectId) :
    Except Fault (Option DefPath) := do
  match s.place? obj with
  | some p => return some p.path
  | none =>
    let o ← c.program.object obj
    let around ← match o.pos with
      | some pos => c.widestScopeAt? pos
      | none => pure none
    match around.or o.parent with
    | none => return none
    | some scope =>
      match s.scopes.get? scope with
      | none => return none
      | some base =>
        let tag := (o.pos.map c.positionTag).getD ""
        return some (base ++ [o.name ++ tag])

end PlacementContext

end SymbolGraph
