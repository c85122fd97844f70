import SymbolGraph.Program.Fault
import SymbolGraph.Syntax.Node

/-!
# Syntax trees

The nodes of all files of a program, by number. Children are made before their parents, and
making a node makes it the parent of those of its children that exist by then.

A tree can be walked in two ways, by recursion from a node into its children (`preorder`) and by
a list of nodes still to be visited (`drain`). Both give a `Trace`: the nodes in the order of
the visits, up to the first fault.
-/

namespace SymbolGraph

/-! ## Walks -/

/-- The visits of a walk, and the fault that cut it short. -/
structure Trace (α : Type) where
  visited : List α
  fault : Option Fault
  deriving Repr, DecidableEq

namespace Trace

variable {α : Type}

/-- The walk without visits. -/
def nil : Trace α := ⟨[], none⟩

/-- A visit before a walk. -/
def cons (a : α) (t : Trace α) : Trace α := ⟨a :: t.visited, t.fault⟩

/-- One walk after another, unless the first is cut short. -/
def append (t u : Trace α) : Trace α :=
  match t.fault with
  | some _ => t
  | none => ⟨t.visited ++ u.visited, u.fault⟩

/-- Walks one after another, up to the first that is cut short. -/
def concat : List (Trace α) → Trace α
  | [] => nil
  | t :: rest => t.append (concat rest)

/-- The visits of a walk that was not cut short. -/
def complete (t : Trace α) : Except Fault (List α) :=
  match t.fault with
  | some f => .error f
  | none => .ok t.visited

end Trace

/-- The walk that visits `a` and then, in order, everything below each of its children, no
more than `depth` levels deep. -/
def preorder {α : Type} (descend : α → Except Fault (List α)) : (depth : Nat) → α → Trace α
  | 0, _ => ⟨[], some .endless⟩
  | depth + 1, a =>
    match descend a with
    | .error f => ⟨[a], some f⟩
    | .ok children => .cons a (.concat (children.map (preorder descend depth)))

/-- The walk that visits the first of the pending nodes and puts its children before the
others, for at most `steps` visits. -/
def drain {α : Type} (descend : α → Except Fault (List α)) : (steps : Nat) → List α → Trace α
  | _, [] => .nil
  | 0, _ :: _ => ⟨[], some .endless⟩
  | steps + 1, a :: pending =>
    match descend a with
    | .error f => ⟨[a], some f⟩
    | .ok children => .cons a (drain descend steps (children ++ pending))

/-! ## Trees -/

/-- The syntax nodes of a program. -/
structure SyntaxTree where
  nodes : Array Node
  deriving Repr, Inhabited

namespace SyntaxTree

/-- The tree without nodes. -/
def empty : SyntaxTree := ⟨#[]⟩

/-- Makes `parent` the parent of a node, if that node exists. -/
def adopt (parent : NodeId) (nodes : Array Node) (child : NodeId) : Array Node :=
  nodes.modify child.index fun n => { n with parent := some parent }

/-- Makes a node and adopts its children. -/
def alloc (t : SyntaxTree) (file : FileId) (range : TextRange) (kind : NodeKind) :
    NodeId × SyntaxTree :=
  let id : NodeId := ⟨t.nodes.size⟩
  (id, ⟨(kind.children.foldl (adopt id) t.nodes).push ⟨kind, file, range, none⟩⟩)

/-- The node with a number. -/
def node (t : SyntaxTree) (id : NodeId) : Except Fault Node := fetch t.nodes id.index

/-- The shape of a node. -/
def kind (t : SyntaxTree) (id : NodeId) : Except Fault NodeKind := (·.kind) <$> t.node id

/-- The file of a node. -/
def file (t : SyntaxTree) (id : NodeId) : Except Fault FileId := (·.file) <$> t.node id

/-- The range of a node. -/
def range (t : SyntaxTree) (id : NodeId) : Except Fault TextRange := (·.range) <$> t.node id

/-- The children of a node. -/
def children (t : SyntaxTree) (id : NodeId) : Except Fault (List NodeId) :=
  (·.kind.children) <$> t.node id

/-- The name of an identifier; `none` for other nodes. -/
def identName? (t : SyntaxTree) (id : NodeId) : Except Fault (Option String) :=
  (·.kind.identName?) <$> t.node id

/-- The parents of a node from the inside out, at most `n` of them. -/
def ancestorsUpTo (t : SyntaxTree) : (n : Nat) → NodeId → Except Fault (List NodeId)
  | 0, _ => .error .endless
  | n + 1, id => do
    match (← t.node id).parent with
    | some parent => return parent :: (← ancestorsUpTo t n parent)
    | none => return []

/-- The parent of a node, that one's parent and so on. -/
def ancestors (t : SyntaxTree) (id : NodeId) : Except Fault (List NodeId) :=
  t.ancestorsUpTo (t.nodes.size + 1) id

/-- The number of levels below any node of a tree in which no node contains itself. -/
def depthBound (t : SyntaxTree) : Nat := t.nodes.size + 1

/-- The largest number of children that a node has. -/
def branching (t : SyntaxTree) : Nat :=
  t.nodes.toList.foldl (fun most n => max most n.kind.children.length) 0

/-- The number of visits of any walk through a tree in which no node contains itself. -/
def visitBound (t : SyntaxTree) : Nat := (t.branching + 1).pow t.depthBound

/-- The walk from a node that leaves out what lies below the nodes in `skip`. -/
def walk (t : SyntaxTree) (skip : List NodeId) (root : NodeId) : Trace NodeId :=
  preorder (fun id => if id ∈ skip then .ok [] else t.children id) t.depthBound root

/-- A node and all nodes below it. -/
def descendants (t : SyntaxTree) (root : NodeId) : Except Fault (List NodeId) :=
  (drain t.children t.visitBound [root]).complete

end SyntaxTree

end SymbolGraph
