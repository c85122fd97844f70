import SymbolGraph.Global.Conversion
import SymbolGraph.Graph.Run

/-!
# Sessions

A session graphs packages of one program one after another and makes their graphs global. What
it learns on the way, keys and targets, lasts as long as the session.
-/

namespace SymbolGraph

/-- What a session depends on. -/
structure SessionContext where
  program : Program
  packages : List CheckedPackage
  options : GraphOptions
  resolver : Resolver

/-- What a session has learned. -/
structure Session where
  keys : KeyStore
  targets : ResolverState
  deriving Inhabited

namespace Session

/-- The session before its first package. -/
def initial : Session := ⟨.empty, .initial⟩

/-- Graphs a package. -/
def graph (s : Session) (c : SessionContext) (package : CheckedPackage) :
    GraphOutcome × Session :=
  let (outcome, keys) := c.program.graph package c.options s.keys
  (outcome, { s with keys := keys })

/-- Graphs packages in order, up to the first fault. An error in one package does not keep the
others from being graphed. -/
def graphAll (c : SessionContext) :
    Session → List CheckedPackage → Except Fault (List (Except GraphError PackageGraph)) × Session
  | s, [] => (.ok [], s)
  | s, package :: rest =>
    match s.graph c package with
    | (.error f, s) => (.error f, s)
    | (.ok result, s) =>
      match graphAll c s rest with
      | (.ok results, s) => (.ok (result :: results), s)
      | (.error f, s) => (.error f, s)

/-- Makes a package graph global, seen from the root of the resolver's tree. -/
def globalize (s : Session) (c : SessionContext) (g : PackageGraph) (policy : FailurePolicy) :
    Except ConversionError (GlobalGraph × List ConversionError) × Session :=
  let (result, targets) := g.toGlobal c.resolver c.resolver.tree.root policy s.targets
  (result, { s with targets := targets })

end Session

end SymbolGraph
