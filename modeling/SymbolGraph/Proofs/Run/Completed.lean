import SymbolGraph.Proofs.Run.Pieces

/-!
# Runs that come to a result

A run that comes to a result, an error or a graph, has gone through its stages without a fault:
the package has been defined, visits have been made until one found an error, and without an error
the comments have been gone through if that was asked for (`stages_of_graph_eq_ok`). One that ends
in a graph has made every visit of the walk (`completes_of_graph_eq_ok`).
-/

namespace SymbolGraph

open Emit

variable {p : Program} {k : CheckedPackage} {c : GraphContext}

/-- The context in which a package that `owner` describes is graphed. -/
structure GraphContext.Of (c : GraphContext) (p : Program) (k : CheckedPackage)
    (labels : Labelling) (owner : Package) : Prop where
  program : c.program = p
  package : c.package = k
  owned : p.package k.pkg = .ok owner
  unit : c.unit = owner.path
  placement : PlacementContext.ofPackage p k labels = .ok c.placement
  places : c.placement.placePackage .empty = .ok c.places

/-- The states between the stages of a run that comes to a result: when the package is defined,
when no more nodes are visited, and at the end. An error that a visit finds ends the walk, and
then nothing is documented. -/
structure Stages (c : GraphContext) (includeDocs : Bool) (keys : KeyStore)
    (packaged visited last : Emission) : Prop where
  emitPackage : c.emitPackage (.start keys) = .ok () packaged
  visitAll : c.visitAll (graphWalk c.program.tree c.package.files).visited packaged =
    .ok () visited
  uncut : visited.error = none → (graphWalk c.program.tree c.package.files).fault = none
  document : (if includeDocs && visited.error.isNone then c.document else pure ()) visited =
    .ok () last

/-- What the stages of a run come to. -/
def Emission.result (s : Emission) : Except GraphError PackageGraph :=
  match s.error with
  | some e => .error e
  | none => .ok s.graph

/-- The states between the stages of a run that ends in a graph: every visit of the walk has been
made, and none has found an error. -/
structure Completes (c : GraphContext) (includeDocs : Bool) (keys : KeyStore)
    (packaged visited last : Emission) : Prop where
  stages : Stages c includeDocs keys packaged visited last
  uncut : (graphWalk c.program.tree c.package.files).fault = none
  faultless : visited.error = none

/-- Once all nodes are visited without a fault, either an error is on record or the walk was not
cut short. -/
theorem visitTrace_eq_ok {s t : Emission} {trace : Trace Visit}
    (h : c.visitTrace trace s = .ok () t) :
    c.visitAll trace.visited s = .ok () t ∧ (t.error = none → trace.fault = none) := by
  obtain ⟨_, t', hvisits, h⟩ := Emit.bind_eq_ok_iff.mp h
  rw [get_bind_apply] at h
  cases herror : t'.error with
  | some e =>
    rw [herror] at h
    obtain ⟨-, rfl⟩ := pure_eq_ok_iff.mp h
    exact ⟨hvisits, fun hnone => by rw [herror] at hnone; cases hnone⟩
  | none =>
    rw [herror] at h
    cases hfault : trace.fault with
    | some f => rw [hfault] at h; cases h
    | none =>
      rw [hfault] at h
      obtain ⟨-, rfl⟩ := pure_eq_ok_iff.mp h
      exact ⟨hvisits, fun _ => rfl⟩

/-- The last stage adds documentation or nothing. -/
theorem madeOf_lastStage (c : GraphContext) (document : Bool) :
    MadeOf c Change.ByDocumentation (if document then c.document else pure ()) := by
  split
  · exact c.madeOf_document
  · exact .pure ()

/-- No error is found once the nodes are visited. -/
theorem Stages.error {includeDocs : Bool} {keys : KeyStore} {packaged visited last : Emission}
    (h : Stages c includeDocs keys packaged visited last) : last.error = visited.error := by
  have hkeeps := (madeOf_lastStage c (includeDocs && visited.error.isNone)).keeps
    (fun s => s.error) (fun _ _ => rfl)
    (fun change hchange s => by cases change <;> first | rfl | cases hchange) visited
  rw [endState_of_ok h.document] at hkeeps
  exact hkeeps

/-- The steps of a run that comes to an end are those of its stages. -/
theorem stages_of_emitAll_eq_ok {includeDocs : Bool} {keys : KeyStore} {last : Emission}
    (h : Program.emitAll c includeDocs (.start keys) = .ok () last) :
    ∃ packaged visited, Stages c includeDocs keys packaged visited last := by
  obtain ⟨_, packaged, hpackaged, h⟩ := Emit.bind_eq_ok_iff.mp h
  obtain ⟨_, visited, hvisited, h⟩ := Emit.bind_eq_ok_iff.mp h
  obtain ⟨hvisits, huncut⟩ := visitTrace_eq_ok hvisited
  exact ⟨packaged, visited, hpackaged, hvisits, huncut, h⟩

/-- A run that comes to a result has found no files, or has gone through its stages. -/
theorem stages_of_graph_eq_ok {options : GraphOptions} {keys keys' : KeyStore}
    {result : Except GraphError PackageGraph} (h : p.graph k options keys = (.ok result, keys')) :
    ∃ owner, p.package k.pkg = .ok owner ∧
      ((k.files = [] ∧ result = .error (.emptyPackage owner.path)) ∨
        k.files ≠ [] ∧ ∃ c packaged visited last, c.Of p k options.labelling owner ∧
          Stages c options.includeDocs keys packaged visited last ∧ last.result = result ∧
          last.keys = keys') := by
  unfold Program.graph at h
  generalize hprepared : (do
    let placement ← PlacementContext.ofPackage p k options.labelling
    return (← p.package k.pkg, placement) : Except Fault (Package × PlacementContext)) =
      prepared at h
  cases prepared with
  | error f => cases h
  | ok found =>
    obtain ⟨placement, hplacement, hprepared⟩ := bind_eq_ok_iff.mp hprepared
    obtain ⟨owner, howner, hprepared⟩ := bind_eq_ok_iff.mp hprepared
    cases hprepared
    dsimp only at h
    split at h
    · rename_i hempty
      cases h
      exact ⟨owner, howner, .inl ⟨List.isEmpty_iff.mp hempty, rfl⟩⟩
    · rename_i hfiles
      cases hc : p.graphContext k owner.path placement with
      | error f => rw [hc] at h; cases h
      | ok c =>
        rw [hc] at h
        obtain ⟨places, hplaces, hcontext⟩ := bind_eq_ok_iff.mp hc
        cases hcontext
        dsimp only at h
        cases hrun : Program.emitAll ⟨p, k, owner.path, placement, places⟩ options.includeDocs
            (.start keys) with
        | error f s => rw [hrun] at h; cases h
        | ok a last =>
          rw [hrun] at h
          obtain ⟨packaged, visited, hstages⟩ := stages_of_emitAll_eq_ok hrun
          have houtcome : last.result = result ∧ last.keys = keys' := by
            unfold Program.outcome at h
            unfold Emission.result
            dsimp only at h
            cases herror : last.error <;> (rw [herror] at h; cases h; exact ⟨rfl, rfl⟩)
          exact ⟨owner, howner, .inr ⟨fun hnil => hfiles (List.isEmpty_iff.mpr hnil), _,
            packaged, visited, last, ⟨rfl, rfl, howner, rfl, hplacement, hplaces⟩, hstages,
            houtcome⟩⟩

/-- The graph that a run ends in, if it does. -/
def GraphOutcome.graph? : GraphOutcome → Option PackageGraph
  | .ok (.ok g) => some g
  | _ => none

/-- A run of which something can be said by way of its graph ends in one. -/
theorem exists_graph_eq_of_graph? {options : GraphOptions} {keys : KeyStore} {α : Type}
    {f : PackageGraph → α} {a : α} (h : (p.graph k options keys).1.graph?.map f = some a) :
    ∃ g keys', p.graph k options keys = (.ok (.ok g), keys') ∧ f g = a := by
  obtain ⟨g, hg, hf⟩ := Option.map_eq_some_iff.mp h
  refine ⟨g, (p.graph k options keys).2, Prod.ext ?_ rfl, hf⟩
  unfold GraphOutcome.graph? at hg
  split at hg
  · rename_i g' houtcome
    rw [houtcome, Option.some.inj hg]
  · cases hg

/-- A run that ends in a graph completes its stages. -/
theorem completes_of_graph_eq_ok {options : GraphOptions} {keys keys' : KeyStore}
    {g : PackageGraph} (h : p.graph k options keys = (.ok (.ok g), keys')) :
    ∃ c owner packaged visited last, c.Of p k options.labelling owner ∧
      Completes c options.includeDocs keys packaged visited last ∧ last.graph = g ∧
      last.keys = keys' := by
  obtain ⟨owner, -, ⟨-, hresult⟩ | ⟨-, c, packaged, visited, last, hc, hrun, hresult, hkeys⟩⟩ :=
    stages_of_graph_eq_ok h
  · cases hresult
  · unfold Emission.result at hresult
    cases herror : last.error with
    | some e => rw [herror] at hresult; cases hresult
    | none =>
      rw [herror] at hresult
      have hfaultless : visited.error = none := hrun.error.symm.trans herror
      exact ⟨c, owner, packaged, visited, last, hc, ⟨hrun, hrun.uncut hfaultless, hfaultless⟩,
        Except.ok.inj hresult, hkeys⟩

end SymbolGraph
