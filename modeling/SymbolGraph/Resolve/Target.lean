/-!
# Targets of import paths

The repository and unit that an import path stands for, and what can keep one from being found.
-/

namespace SymbolGraph

/-- The unit type of every package. -/
def packageUnitType : String := "GoPackage"

/-- Where an imported package lives. -/
structure Target where
  /-- The address the repository is cloned from; empty inside the tree being graphed. -/
  cloneUrl : String
  unit : String
  unitType : String
  version : String
  revision : String
  deriving DecidableEq, Repr, Inhabited

namespace Target

/-- A package of a repository. -/
def ofUnit (cloneUrl unit : String) : Target := ⟨cloneUrl, unit, packageUnitType, "", ""⟩

/-- A package of the tree being graphed. -/
def inTree (unit : String) : Target := ofUnit "" unit

/-- Whether a target lies in the tree being graphed. -/
def isInTree (t : Target) : Bool := t.cloneUrl.isEmpty

end Target

/-- Why an import path has no target that could be used. -/
inductive ResolveError where
  /-- The path does not have the shape that its host asks for. -/
  | malformed (path reason : String)
  /-- The path is that of an external test package. -/
  | testPackage (path : String)
  deriving DecidableEq, Repr

/-- The wording of a failure to resolve. -/
def ResolveError.message : ResolveError → String
  | .malformed path reason => "invalid import path `" ++ path ++ "`: " ++ reason
  | .testPackage path => "xtest package `" ++ path ++ "` cannot be resolved"

end SymbolGraph
