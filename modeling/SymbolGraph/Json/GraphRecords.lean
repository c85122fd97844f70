import SymbolGraph.Graph.Record
import SymbolGraph.Json.Fields

/-!
# Package graphs as JSON

The written form of the records of a package graph, and reading it back.
-/

namespace SymbolGraph

open Json

/-- A span is written as the pair of its offsets. -/
def Span.toJson (s : Span) : Json := .arr [ofUInt32 s.start, ofUInt32 s.stop]

/-- Reads a pair of offsets. -/
def Span.ofJson? : Json → Option Span
  | .arr [start, stop] => do
    let start ← start.uint32?
    let stop ← stop.uint32?
    return ⟨start, stop⟩
  | _ => none

namespace DefKey

/-- The fields of a key, in order. -/
def fields : List String := ["PackageImportPath", "Path"]

/-- A key as JSON. -/
def toJson (k : DefKey) : Json :=
  .obj [("PackageImportPath", .str k.pkg), ("Path", Json.ofList .str k.path)]

/-- Reads a key. -/
def ofJson? (j : Json) : Option DefKey := do
  let es ← entries? fields j
  let pkg ← required str? "PackageImportPath" es
  let path ← required (listOf? str?) "Path" es
  return ⟨pkg, path⟩

end DefKey

/-- The names of the kinds. -/
def DefKind.names : List (String × DefKind) :=
  [.package, .const, .type, .var, .func, .method, .field].map fun k => (k.word, k)

/-- A kind as JSON. -/
def DefKind.toJson (k : DefKind) : Json := .str k.word

/-- Reads a kind. -/
def DefKind.ofJson? (j : Json) : Option DefKind := variant? DefKind.names j

/-- The names of the documentation forms. -/
def DocFormat.names : List (String × DocFormat) :=
  [.html, .plain].map fun f => (f.mime, f)

/-- A documentation form as JSON. -/
def DocFormat.toJson (f : DocFormat) : Json := .str f.mime

/-- Reads a documentation form. -/
def DocFormat.ofJson? (j : Json) : Option DocFormat := variant? DocFormat.names j

namespace Def

/-- The fields of a definition, in order. -/
def fields : List String :=
  ["Name", "DefKey", "File", "IdentSpan", "DeclSpan", "Exported", "PackageScope", "Kind",
    "Receiver", "FieldOfStruct", "TypeString", "UnderlyingTypeString"]

/-- A definition as JSON. -/
def toJson (d : Def) : Json :=
  .obj ([("Name", .str d.name), ("DefKey", d.key.toJson), ("File", .str d.file),
      ("IdentSpan", d.identSpan.toJson), ("DeclSpan", d.declSpan.toJson),
      ("Exported", .bool d.exported), ("PackageScope", .bool d.packageScope),
      ("Kind", d.kind.toJson)]
    ++ entryIf "Receiver" .str d.receiver ++ entryIf "FieldOfStruct" .str d.structName
    ++ [("TypeString", .str d.typeText), ("UnderlyingTypeString", .str d.underlyingText)])

/-- Reads a definition. -/
def ofJson? (j : Json) : Option Def := do
  let es ← entries? fields j
  let name ← required str? "Name" es
  let key ← required DefKey.ofJson? "DefKey" es
  let file ← required str? "File" es
  let identSpan ← required Span.ofJson? "IdentSpan" es
  let declSpan ← required Span.ofJson? "DeclSpan" es
  let exported ← required bool? "Exported" es
  let packageScope ← required bool? "PackageScope" es
  let kind ← required DefKind.ofJson? "Kind" es
  let receiver ← optional str? "Receiver" es
  let structName ← optional str? "FieldOfStruct" es
  let typeText ← required str? "TypeString" es
  let underlyingText ← required str? "UnderlyingTypeString" es
  return ⟨name, key, file, identSpan, declSpan, exported, packageScope, kind, receiver,
    structName, typeText, underlyingText⟩

end Def

namespace Ref

/-- The fields of a reference, in order. -/
def fields : List String := ["Unit", "File", "Span", "Def", "IsDef"]

/-- A reference as JSON. -/
def toJson (r : Ref) : Json :=
  .obj [("Unit", .str r.unit), ("File", .str r.file), ("Span", r.span.toJson),
    ("Def", r.target.toJson), ("IsDef", .bool r.isDef)]

/-- Reads a reference. -/
def ofJson? (j : Json) : Option Ref := do
  let es ← entries? fields j
  let unit ← required str? "Unit" es
  let file ← required str? "File" es
  let span ← required Span.ofJson? "Span" es
  let target ← required DefKey.ofJson? "Def" es
  let isDef ← required bool? "IsDef" es
  return ⟨unit, file, span, target, isDef⟩

end Ref

namespace Doc

/-- The fields of a documentation text, in order. -/
def fields : List String := ["DefKey", "Unit", "Format", "Data", "File", "Span"]

/-- A documentation text as JSON. -/
def toJson (d : Doc) : Json :=
  .obj (entryIf "DefKey" DefKey.toJson d.key
    ++ [("Unit", .str d.unit), ("Format", d.format.toJson), ("Data", .str d.data),
      ("File", .str d.file), ("Span", d.span.toJson)])

/-- Reads a documentation text. -/
def ofJson? (j : Json) : Option Doc := do
  let es ← entries? fields j
  let key ← optional DefKey.ofJson? "DefKey" es
  let unit ← required str? "Unit" es
  let format ← required DocFormat.ofJson? "Format" es
  let data ← required str? "Data" es
  let file ← required str? "File" es
  let span ← required Span.ofJson? "Span" es
  return ⟨key, unit, format, data, file, span⟩

end Doc

namespace PackageGraph

/-- The fields of a package graph, in order. -/
def fields : List String := ["Defs", "Refs", "Docs"]

/-- A package graph as JSON. -/
def toJson (g : PackageGraph) : Json :=
  .obj [("Defs", Json.ofList Def.toJson g.defs), ("Refs", Json.ofList Ref.toJson g.refs),
    ("Docs", Json.ofList Doc.toJson g.docs)]

/-- Reads a package graph. -/
def ofJson? (j : Json) : Option PackageGraph := do
  let es ← entries? fields j
  let defs ← required (listOf? Def.ofJson?) "Defs" es
  let refs ← required (listOf? Ref.ofJson?) "Refs" es
  let docs ← required (listOf? Doc.ofJson?) "Docs" es
  return ⟨defs, refs, docs⟩

end PackageGraph

end SymbolGraph
