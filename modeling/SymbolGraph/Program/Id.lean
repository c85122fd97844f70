/-!
# Numbers of program entities

Everything a checked program consists of is numbered in the order in which it was made: syntax
nodes, objects, scopes, types and packages. A number is what identity means: two objects with
one name are two numbers.
-/

namespace SymbolGraph

/-- The number of a syntax node. -/
structure NodeId where
  index : Nat
  deriving DecidableEq, Repr, Inhabited

/-- The number of a declared entity. -/
structure ObjectId where
  index : Nat
  deriving DecidableEq, Repr, Inhabited

/-- The number of a lexical scope. -/
structure ScopeId where
  index : Nat
  deriving DecidableEq, Repr, Inhabited

/-- The number of a type. -/
structure TypeId where
  index : Nat
  deriving DecidableEq, Repr, Inhabited

/-- The number of a package. -/
structure PackageId where
  index : Nat
  deriving DecidableEq, Repr, Inhabited

/-- The form used in listings. -/
def NodeId.tag (n : NodeId) : String := "NodeId(" ++ toString n.index ++ ")"

/-- The form used in messages. -/
def ObjectId.tag (o : ObjectId) : String := "ObjectId(" ++ toString o.index ++ ")"

/-- The form used in listings. -/
def PackageId.tag (p : PackageId) : String := "PackageId(" ++ toString p.index ++ ")"

end SymbolGraph
