import SymbolGraph.Program.Basic

/-!
# Where scopes come from

For each scope of a package the node that introduces it, and for the scope of a function the
name that the function is declared with. A scope without a node is no mistake: some scopes have
no syntax of their own.
-/

namespace SymbolGraph

/-- The origins of the scopes of a package. -/
structure ScopeOrigins where
  nodes : Table ScopeId NodeId
  funcNames : Table ScopeId String
  deriving Repr, Inhabited

namespace ScopeOrigins

/-- Adds the name of a function to the names known so far, if an identifier declares a function
with a scope. -/
def addFuncName (p : Program) (names : Table ScopeId String) (ident : NodeId)
    (obj : ObjectId) : Except Fault (Table ScopeId String) := do
  match (← p.object obj).kind with
  | .func (some scope) =>
    match ← p.tree.identName? ident with
    | some name => return names.insert scope name
    | none => return names
  | _ => return names

/-- The origins of the scopes of a package. -/
def ofFacts (p : Program) (facts : Facts) : Except Fault ScopeOrigins := do
  let names ← facts.defs.entries.foldlM (fun names (ident, obj) => addFuncName p names ident obj)
    Table.empty
  let nodes := facts.scopes.entries.foldl (fun (nodes : Table ScopeId NodeId) (node, scope) =>
    nodes.insert scope node) Table.empty
  return ⟨nodes, names⟩

/-- The node that introduces a scope. -/
def node? (o : ScopeOrigins) (scope : ScopeId) : Option NodeId := o.nodes.get? scope

/-- The name of the function that a scope belongs to. -/
def funcName? (o : ScopeOrigins) (scope : ScopeId) : Option String := o.funcNames.get? scope

end ScopeOrigins

end SymbolGraph
