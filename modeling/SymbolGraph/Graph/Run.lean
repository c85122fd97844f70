import SymbolGraph.Graph.Documentation

/-!
# Graphing a package

One run over a package: places are given out, the files are walked for definitions and
references, and the comments are made into documentation. The keys that were found stay known
also when the run ends in an error or a fault.
-/

namespace SymbolGraph

/-- What a run ends in: a fault, an error, or a graph. -/
abbrev GraphOutcome := Except Fault (Except GraphError PackageGraph)

namespace Program

/-- The steps of a run whose places are given out. -/
def emitAll (c : GraphContext) (includeDocs : Bool) : Emit Unit := do
  c.emitPackage
  c.visitTrace (graphWalk c.program.tree c.package.files)
  if includeDocs && (← get).error.isNone then c.document

/-- The outcome of a run's steps and the keys that are known after it. -/
def outcome : EStateM.Result Fault Emission Unit → GraphOutcome × KeyStore
  | .ok _ s =>
    match s.error with
    | some e => (.ok (.error e), s.keys)
    | none => (.ok (.ok s.graph), s.keys)
  | .error f s => (.error f, s.keys)

/-- The context in which a package is graphed, its places given out. -/
def graphContext (p : Program) (package : CheckedPackage) (unit : String)
    (placement : PlacementContext) : Except Fault GraphContext := do
  return ⟨p, package, unit, placement, ← placement.placePackage .empty⟩

/-- Graphs a package. A package without files is an error, but one whose scopes cannot be traced
to their origins is a fault first. -/
def graph (p : Program) (package : CheckedPackage) (options : GraphOptions) (keys : KeyStore) :
    GraphOutcome × KeyStore :=
  let prepared : Except Fault (Package × PlacementContext) := do
    let placement ← PlacementContext.ofPackage p package options.labelling
    return (← p.package package.pkg, placement)
  match prepared with
  | .error f => (.error f, keys)
  | .ok (owner, placement) =>
    if package.files.isEmpty then (.ok (.error (.emptyPackage owner.path)), keys)
    else
      match p.graphContext package owner.path placement with
      | .error f => (.error f, keys)
      | .ok c => outcome (emitAll c options.includeDocs (.start keys))

end Program

end SymbolGraph
