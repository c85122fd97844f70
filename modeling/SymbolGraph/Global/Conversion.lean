import SymbolGraph.Global.Record
import SymbolGraph.Json.GraphRecords
import SymbolGraph.Resolve.Resolver

/-!
# Global keys for a package graph

Every record of a package graph names packages by import path. Resolving those paths turns the
records into records with global keys. A record whose package has no target is dropped, and a
path that cannot be resolved makes the conversion of its record fail; a policy says whether a
failure stops the conversion or is put on record.
-/

namespace SymbolGraph

open Text

/-- What happens when a record cannot be converted. -/
inductive FailurePolicy where
  /-- The failure is collected and the next record is converted. -/
  | skip
  /-- The conversion ends. -/
  | abort
  deriving DecidableEq, Repr, Inhabited

/-- The kinds of records that conversion can fail on. -/
inductive RecordKind where
  | definition
  | reference
  | documentation
  deriving DecidableEq, Repr

/-- The word for a kind of record in messages. -/
def RecordKind.word : RecordKind → String
  | .definition => "def"
  | .reference => "ref"
  | .documentation => "doc"

/-- A record that could not be converted. -/
structure ConversionError where
  kind : RecordKind
  name : String
  cause : ResolveError
  deriving DecidableEq, Repr

/-- The wording of a failed conversion. -/
def ConversionError.message (e : ConversionError) : String :=
  "cannot convert " ++ e.kind.word ++ " `" ++ e.name ++ "`: " ++ e.cause.message

/-! ## Keys and file names -/

/-- The global form of a key in a package with a target. -/
def DefKey.toGlobal (k : DefKey) (t : Target) : GlobalKey where
  repo := repoUri t.cloneUrl
  unit := t.unit
  unitType := t.unitType
  path := if k.joinedPath.isEmpty then "." else k.joinedPath

/-- The place of a definition in the tree of its unit. -/
def treePath (path : String) : String :=
  let stem := String.ofList (removeAll ".go".toList path.toList)
  if stem.isEmpty || stem == "." then "." else "./" ++ stem

/-- A file name seen from the root of the tree, if it lies there, with slashes. -/
def relativeFile (root : UnixPath) (file : String) : String :=
  match (UnixPath.mk file).relativeTo? root with
  | some rest => UnixPath.slashed rest
  | none => String.ofList (replaceChar '\\' '/' file.toList)

/-! ## Records -/

/-- A step that resolves paths: it may fail, may find no target, and changes what is
remembered. -/
abbrev Resolving (α : Type) := ResolverState → Except ResolveError (Option α) × ResolverState

namespace Resolving

/-- Goes on with the target of a path, if it has one. -/
def withTarget {α : Type} (r : Resolver) (path : String) (next : Target → Resolving α) :
    Resolving α := fun s =>
  match r.resolve s path with
  | (.ok (some t), s) => next t s
  | (.ok none, s) => (.ok none, s)
  | (.error e, s) => (.error e, s)

/-- A result that needs no further path. -/
def done {α : Type} (a : α) : Resolving α := fun s => (.ok (some a), s)

end Resolving

/-- What a definition carries besides its key and place. -/
def Def.details (d : Def) : Json :=
  .obj [("PackageImportPath", .str d.key.pkg), ("Exported", .bool d.exported),
    ("PkgScope", .bool d.packageScope), ("Kind", d.kind.toJson),
    ("Receiver", Json.ofOption .str d.receiver),
    ("FieldOfStruct", Json.ofOption .str d.structName),
    ("TypeString", .str d.typeText), ("UnderlyingTypeString", .str d.underlyingText)]

/-- A definition whose package has a target, with its global key. -/
def Def.withTarget (d : Def) (root : UnixPath) (t : Target) : GlobalDef :=
  let key := d.key.toGlobal t
  { key := key
    treePath := treePath key.path
    name := d.name
    kind := d.kind.word
    file := relativeFile root d.file
    defStart := d.declSpan.start
    defEnd := d.declSpan.stop
    exported := d.exported
    isLocal := !d.exported && !d.packageScope
    isTest := endsWith "_test.go".toList d.file.toList
    data := d.details }

/-- The global form of a definition. One without a file is dropped. -/
def Def.toGlobal (d : Def) (r : Resolver) (root : UnixPath) : Resolving GlobalDef :=
  if d.file.isEmpty then fun s => (.ok none, s)
  else Resolving.withTarget r d.key.pkg fun t => Resolving.done (d.withTarget root t)

/-- The global form of a reference. -/
def Ref.toGlobal (x : Ref) (r : Resolver) (root : UnixPath) : Resolving GlobalRef :=
  Resolving.withTarget r x.target.pkg fun t =>
    Resolving.withTarget r x.unit fun u =>
      let key := x.target.toGlobal t
      Resolving.done
        { defRepo := key.repo
          defUnitType := key.unitType
          defUnit := key.unit
          defPath := key.path
          isDef := x.isDef
          unit := u.unit
          file := relativeFile root x.file
          start := x.span.start
          stop := x.span.stop }

/-- A documentation text in a unit with a target, with the global key of what it documents. -/
def Doc.withTarget (d : Doc) (root : UnixPath) (key : Option GlobalKey) (u : Target) :
    GlobalDoc where
  key := key
  format := d.format
  data := d.data
  file := relativeFile root d.file
  start := d.span.start
  stop := d.span.stop
  docUnit := u.unit

/-- The global form of a documentation text. -/
def Doc.toGlobal (d : Doc) (r : Resolver) (root : UnixPath) : Resolving GlobalDoc :=
  match d.key with
  | some key =>
    Resolving.withTarget r key.pkg fun t =>
      Resolving.withTarget r d.unit fun u =>
        Resolving.done (d.withTarget root (some (key.toGlobal t)) u)
  | none => Resolving.withTarget r d.unit fun u => Resolving.done (d.withTarget root none u)

/-- The name that a documentation text has in messages. -/
def Doc.messageName (d : Doc) : String :=
  match d.key with
  | some key => key.text
  | none => d.file

/-! ## Package graphs -/

/-- The outcome of converting records one after another: the failure that ended it, or the
converted records and the failures put on record. -/
abbrev Converted (α : Type) := Except ConversionError (List α × List ConversionError)

/-- Converts records in order. -/
def convertAll {ρ α : Type} (policy : FailurePolicy) (convert : ρ → Resolving α)
    (fail : ρ → ResolveError → ConversionError) :
    List ρ → ResolverState → Converted α × ResolverState
  | [], s => (.ok ([], []), s)
  | x :: rest, s =>
    match convert x s with
    | (.error e, s) =>
      match policy with
      | .abort => (.error (fail x e), s)
      | .skip =>
        match convertAll policy convert fail rest s with
        | (.ok (done, errors), s) => (.ok (done, fail x e :: errors), s)
        | (.error e, s) => (.error e, s)
    | (.ok result, s) =>
      match convertAll policy convert fail rest s with
      | (.ok (done, errors), s) => (.ok (result.toList ++ done, errors), s)
      | (.error e, s) => (.error e, s)

/-- The global form of a package graph: definitions first, then references, then
documentation. -/
def PackageGraph.toGlobal (g : PackageGraph) (r : Resolver) (root : UnixPath)
    (policy : FailurePolicy) (s : ResolverState) :
    Except ConversionError (GlobalGraph × List ConversionError) × ResolverState :=
  match convertAll policy (fun d => Def.toGlobal d r root)
      (fun d e => ⟨.definition, d.name, e⟩) g.defs s with
  | (.error e, s) => (.error e, s)
  | (.ok (defs, defErrors), s) =>
    match convertAll policy (fun x => Ref.toGlobal x r root)
        (fun x e => ⟨.reference, x.target.text, e⟩) g.refs s with
    | (.error e, s) => (.error e, s)
    | (.ok (refs, refErrors), s) =>
      match convertAll policy (fun d => Doc.toGlobal d r root)
          (fun d e => ⟨.documentation, d.messageName, e⟩) g.docs s with
      | (.error e, s) => (.error e, s)
      | (.ok (docs, docErrors), s) =>
        (.ok (⟨defs, refs, docs⟩, defErrors ++ refErrors ++ docErrors), s)

end SymbolGraph
