import SymbolGraph.Global.Record
import SymbolGraph.Json.GraphRecords

/-!
# Global graphs as JSON

The written form of the records with global keys, and reading it back. Definitions and
documentation texts carry the fields of their key among their own, so they are read from
objects only.
-/

namespace SymbolGraph

open Json

namespace GlobalKey

/-- The fields of a global key, in order. -/
def fields : List String := ["Repo", "Unit", "UnitType", "Path"]

/-- The entries of a global key. -/
def entries (k : GlobalKey) : List (String × Json) :=
  [("Repo", .str k.repo), ("Unit", .str k.unit), ("UnitType", .str k.unitType),
    ("Path", .str k.path)]

/-- Reads a global key out of a list of entries. -/
def ofEntries? (es : List (String × Json)) : Option GlobalKey := do
  let repo ← required str? "Repo" es
  let unit ← required str? "Unit" es
  let unitType ← required str? "UnitType" es
  let path ← required str? "Path" es
  return ⟨repo, unit, unitType, path⟩

/-- A global key as JSON. -/
def toJson (k : GlobalKey) : Json := .obj k.entries

/-- Reads a global key. -/
def ofJson? (j : Json) : Option GlobalKey := (entries? fields j).bind ofEntries?

end GlobalKey

/-- The entries of a record that is read from objects only. -/
def objectEntries? : Json → Option (List (String × Json))
  | .obj entries => some entries
  | _ => none

namespace GlobalDef

/-- A global definition as JSON. -/
def toJson (d : GlobalDef) : Json :=
  .obj (d.key.entries
    ++ [("TreePath", .str d.treePath), ("Name", .str d.name), ("Kind", .str d.kind),
      ("File", .str d.file), ("DefStart", ofUInt32 d.defStart), ("DefEnd", ofUInt32 d.defEnd),
      ("Exported", .bool d.exported), ("Local", .bool d.isLocal), ("Test", .bool d.isTest),
      ("Data", d.data)])

/-- Reads a global definition. -/
def ofJson? (j : Json) : Option GlobalDef := do
  let es ← objectEntries? j
  let key ← GlobalKey.ofEntries? es
  let treePath ← required str? "TreePath" es
  let name ← required str? "Name" es
  let kind ← required str? "Kind" es
  let file ← required str? "File" es
  let defStart ← required uint32? "DefStart" es
  let defEnd ← required uint32? "DefEnd" es
  let exported ← required bool? "Exported" es
  let isLocal ← required bool? "Local" es
  let isTest ← required bool? "Test" es
  let data ← required some "Data" es
  return ⟨key, treePath, name, kind, file, defStart, defEnd, exported, isLocal, isTest, data⟩

end GlobalDef

namespace GlobalRef

/-- The fields of a global reference, in order. -/
def fields : List String :=
  ["DefRepo", "DefUnitType", "DefUnit", "DefPath", "Def", "Unit", "File", "Start", "End"]

/-- A global reference as JSON. -/
def toJson (r : GlobalRef) : Json :=
  .obj [("DefRepo", .str r.defRepo), ("DefUnitType", .str r.defUnitType),
    ("DefUnit", .str r.defUnit), ("DefPath", .str r.defPath), ("Def", .bool r.isDef),
    ("Unit", .str r.unit), ("File", .str r.file), ("Start", ofUInt32 r.start),
    ("End", ofUInt32 r.stop)]

/-- Reads a global reference. -/
def ofJson? (j : Json) : Option GlobalRef := do
  let es ← entries? fields j
  let defRepo ← required str? "DefRepo" es
  let defUnitType ← required str? "DefUnitType" es
  let defUnit ← required str? "DefUnit" es
  let defPath ← required str? "DefPath" es
  let isDef ← required bool? "Def" es
  let unit ← required str? "Unit" es
  let file ← required str? "File" es
  let start ← required uint32? "Start" es
  let stop ← required uint32? "End" es
  return ⟨defRepo, defUnitType, defUnit, defPath, isDef, unit, file, start, stop⟩

end GlobalRef

namespace GlobalDoc

/-- A global documentation text as JSON. -/
def toJson (d : GlobalDoc) : Json :=
  .obj ((match d.key with
      | some key => key.entries
      | none => [])
    ++ [("Format", d.format.toJson), ("Data", .str d.data), ("File", .str d.file),
      ("Start", ofUInt32 d.start), ("End", ofUInt32 d.stop), ("DocUnit", .str d.docUnit)])

/-- Reads a global documentation text. A key of which a field is missing or no string is no
key. -/
def ofJson? (j : Json) : Option GlobalDoc := do
  let es ← objectEntries? j
  let format ← required DocFormat.ofJson? "Format" es
  let data ← required str? "Data" es
  let file ← required str? "File" es
  let start ← required uint32? "Start" es
  let stop ← required uint32? "End" es
  let docUnit ← required str? "DocUnit" es
  return ⟨GlobalKey.ofEntries? es, format, data, file, start, stop, docUnit⟩

end GlobalDoc

namespace GlobalGraph

/-- The fields of a global graph, in order. -/
def fields : List String := ["Defs", "Refs", "Docs"]

/-- A global graph as JSON. -/
def toJson (g : GlobalGraph) : Json :=
  .obj [("Defs", Json.ofList GlobalDef.toJson g.defs),
    ("Refs", Json.ofList GlobalRef.toJson g.refs),
    ("Docs", Json.ofList GlobalDoc.toJson g.docs)]

/-- Reads a global graph. -/
def ofJson? (j : Json) : Option GlobalGraph := do
  let es ← entries? fields j
  let defs ← required (listOf? GlobalDef.ofJson?) "Defs" es
  let refs ← required (listOf? GlobalRef.ofJson?) "Refs" es
  let docs ← required (listOf? GlobalDoc.ofJson?) "Docs" es
  return ⟨defs, refs, docs⟩

end GlobalGraph

end SymbolGraph
