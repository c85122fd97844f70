import SymbolGraph.Graph.Record
import SymbolGraph.Json.Basic

/-!
# Records with global keys

The records of a package graph once every import path in them has become a repository and a
unit, so that they can be read without the tree they were made from.
-/

namespace SymbolGraph

/-- The identity of a definition among all repositories. -/
structure GlobalKey where
  /-- The repository; empty for the tree being graphed. -/
  repo : String
  unit : String
  unitType : String
  /-- The path with slashes, or a full stop for a package. -/
  path : String
  deriving DecidableEq, Repr, Inhabited

/-- A definition with its global key. -/
structure GlobalDef where
  key : GlobalKey
  treePath : String
  name : String
  kind : String
  file : String
  defStart : UInt32
  defEnd : UInt32
  exported : Bool
  isLocal : Bool
  isTest : Bool
  /-- What the language adds to the definition. -/
  data : Json
  deriving Repr, Inhabited

/-- A reference with the global key of its definition. -/
structure GlobalRef where
  defRepo : String
  defUnitType : String
  defUnit : String
  defPath : String
  isDef : Bool
  unit : String
  file : String
  start : UInt32
  stop : UInt32
  deriving DecidableEq, Repr, Inhabited

/-- A documentation text with the global key of what it documents. -/
structure GlobalDoc where
  key : Option GlobalKey
  format : DocFormat
  data : String
  file : String
  start : UInt32
  stop : UInt32
  docUnit : String
  deriving DecidableEq, Repr, Inhabited

/-- A package graph with global keys. -/
structure GlobalGraph where
  defs : List GlobalDef
  refs : List GlobalRef
  docs : List GlobalDoc
  deriving Repr, Inhabited

/-- The graph without records. -/
def GlobalGraph.empty : GlobalGraph := ⟨[], [], []⟩

end SymbolGraph
