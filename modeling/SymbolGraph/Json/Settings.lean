import SymbolGraph.Config
import SymbolGraph.Json.Fields
import SymbolGraph.Resolve.Target

/-!
# Settings and targets as JSON

The written form of a configuration and of a target, and reading it back.
-/

namespace SymbolGraph

open Json

namespace Target

/-- The fields of a target, in order. -/
def fields : List String :=
  ["ToRepoCloneURL", "ToUnit", "ToUnitType", "ToVersionString", "ToRevSpec"]

/-- A target as JSON; version and revision are left out when empty. -/
def toJson (t : Target) : Json :=
  .obj ([("ToRepoCloneURL", .str t.cloneUrl), ("ToUnit", .str t.unit),
      ("ToUnitType", .str t.unitType)]
    ++ entryIfText "ToVersionString" t.version ++ entryIfText "ToRevSpec" t.revision)

/-- Reads a target. -/
def ofJson? (j : Json) : Option Target := do
  let es ← entries? fields j
  let cloneUrl ← required str? "ToRepoCloneURL" es
  let unit ← required str? "ToUnit" es
  let unitType ← required str? "ToUnitType" es
  let version ← withDefault "" str? "ToVersionString" es
  let revision ← withDefault "" str? "ToRevSpec" es
  return ⟨cloneUrl, unit, unitType, version, revision⟩

end Target

namespace ScopeLabels

/-- The word for a way of labelling. -/
def word : ScopeLabels → String
  | .deterministic => "Deterministic"
  | .random => "Random"

/-- A way of labelling as JSON. -/
def toJson (l : ScopeLabels) : Json := .str l.word

/-- Reads a way of labelling. -/
def ofJson? (j : Json) : Option ScopeLabels :=
  variant? ([deterministic, random].map fun l => (l.word, l)) j

end ScopeLabels

namespace Config

/-- The fields of a configuration, in order. -/
def fields : List String :=
  ["GOROOT", "GOPATH", "GOVERSION", "IncludeDocs", "ScopeLabels", "VendorDirs"]

/-- A configuration as JSON. -/
def toJson (c : Config) : Json :=
  .obj [("GOROOT", .str c.goRoot), ("GOPATH", .str c.goPath), ("GOVERSION", .str c.goVersion),
    ("IncludeDocs", .bool c.includeDocs), ("ScopeLabels", c.scopeLabels.toJson),
    ("VendorDirs", Json.ofList .str c.vendorDirs)]

/-- Reads a configuration. Fields that are missing have their default value; null stands for
the default configuration, but not for a field. -/
def ofJson? : Json → Option Config
  | .null => some Config.default
  | j => do
    let es ← entries? fields j
    let goRoot ← withDefault Config.default.goRoot str? "GOROOT" es
    let goPath ← withDefault Config.default.goPath str? "GOPATH" es
    let goVersion ← withDefault Config.default.goVersion str? "GOVERSION" es
    let includeDocs ← withDefault Config.default.includeDocs bool? "IncludeDocs" es
    let scopeLabels ← withDefault Config.default.scopeLabels ScopeLabels.ofJson? "ScopeLabels" es
    let vendorDirs ← withDefault Config.default.vendorDirs (listOf? str?) "VendorDirs" es
    return ⟨goRoot, goPath, goVersion, includeDocs, scopeLabels, vendorDirs⟩

end Config

end SymbolGraph
