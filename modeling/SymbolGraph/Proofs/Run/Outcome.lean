import SymbolGraph.Proofs.Run.Progress

/-!
# What a run ends in

A run comes to an error exactly if a declaration is refused, and then to the error of the earliest
one that is (`result_eq_error_iff_refused`): an object that cannot be declared, a key that the
package has, or one that another object has that was declared before (`Program.Refuses`). Over a
package of a well-formed program a run always comes to a result (`exists_graph_eq_ok`); over others
it may end in a fault (`exists_graph_faulting`).
-/

namespace SymbolGraph

open Emit

/-! ## Refusals -/

namespace Program

variable {p : Program} {unit : String} {keyOf : ObjectId → Option DefKey}
  {before : List Declaration} {d : Declaration} {e : GraphError}

/-- A declaration after others is refused with an error: its object is predeclared, or its key as
text is the package's, or is that of another object declared before. -/
inductive Refuses (p : Program) (unit : String) (keyOf : ObjectId → Option DefKey)
    (before : List Declaration) (d : Declaration) : GraphError → Prop
  | undeclarable {o : Object} : p.object d.obj = .ok o → o.kind = .builtin ∨ o.kind = .nil →
      Refuses p unit keyOf before d (.undeclarable o.name o.kind.word)
  | package {key : DefKey} : p.undeclarable? d.obj = none → keyOf d.obj = some key →
      key.text = (DefKey.ofPackage unit).text →
      Refuses p unit keyOf before d (.duplicateKey key.text none d.obj)
  | taken {key other : DefKey} {b : Declaration} : p.undeclarable? d.obj = none →
      keyOf d.obj = some key → b ∈ before → b.obj ≠ d.obj → keyOf b.obj = some other →
      other.text = key.text →
      Refuses p unit keyOf before d (.duplicateKey key.text (some b.obj) d.obj)

/-- None of some declarations is refused. -/
def Accepts (p : Program) (unit : String) (keyOf : ObjectId → Option DefKey)
    (ds : List Declaration) : Prop :=
  ∀ before d after, ds = before ++ d :: after → ∀ e, ¬ p.Refuses unit keyOf before d e

/-- An object is undeclarable if it is a builtin or `nil`, and the error says its name and kind. -/
theorem undeclarable?_eq_some_iff {obj : ObjectId} : p.undeclarable? obj = some e ↔
    ∃ o, p.object obj = .ok o ∧ (o.kind = .builtin ∨ o.kind = .nil) ∧
      e = .undeclarable o.name o.kind.word := by
  unfold undeclarable?
  cases ho : p.object obj with
  | error f => simp
  | ok o =>
    have hkind : o.undeclarable? = some e ↔
        (o.kind = .builtin ∨ o.kind = .nil) ∧ e = .undeclarable o.name o.kind.word := by
      unfold Object.undeclarable?
      cases o.kind <;> simp [eq_comm]
    simp [hkind]

/-- After declarations that are not refused, the error of the next one is as described. -/
theorem refusal?_eq_some_iff (hnone : p.firstRefusal? unit keyOf [] before = none) :
    p.refusal? unit keyOf before d = some e ↔ p.Refuses unit keyOf before d e := by
  constructor
  · intro h
    unfold refusal? at h
    split at h
    · rename_i hundeclarable
      cases h
      obtain ⟨o, ho, hkind, rfl⟩ := undeclarable?_eq_some_iff.mp hundeclarable
      exact .undeclarable ho hkind
    · rename_i hdeclarable
      cases hkey : keyOf d.obj with
      | none => rw [hkey] at h; cases h
      | some key =>
        rw [hkey] at h
        dsimp only at h
        cases hclaim : claimant? unit keyOf before key.text with
        | none => rw [hclaim] at h; cases h
        | some first =>
          rw [hclaim] at h
          dsimp only at h
          split at h
          · cases h
          · rename_i hother
            cases h
            unfold claimant? at hclaim
            split at hclaim
            · rename_i htext
              cases hclaim
              exact .package hdeclarable hkey htext
            · obtain ⟨b, hfind, rfl⟩ := Option.map_eq_some_iff.mp hclaim
              have hsame := List.find?_some hfind
              simp only [beq_iff_eq] at hsame
              obtain ⟨other, hother', htext⟩ := Option.map_eq_some_iff.mp hsame
              exact .taken hdeclarable hkey (List.mem_of_find?_eq_some hfind)
                (fun heq => hother (congrArg some heq)) hother' htext
  · intro h
    cases h with
    | undeclarable ho hkind =>
      simp only [refusal?, undeclarable?_eq_some_iff.mpr ⟨_, ho, hkind, rfl⟩]
    | package hdeclarable hkey htext =>
      simp only [refusal?, hdeclarable, hkey, claimant?, if_pos htext, reduceCtorEq, if_false]
    | taken hdeclarable hkey hb hne hother htext =>
      have hclaim := claimant?_eq_of_mem hnone hb hother
      rw [htext] at hclaim
      have hne' : (some _ : Option ObjectId) ≠ some d.obj := fun heq => hne (Option.some.inj heq)
      simp only [refusal?, hdeclarable, hkey, hclaim, if_neg hne']

/-- There is no first refusal if and only if none of the declarations is refused. -/
theorem firstRefusal?_eq_none_iff {ds : List Declaration} :
    p.firstRefusal? unit keyOf [] ds = none ↔ p.Accepts unit keyOf ds := by
  constructor
  · rintro h before d after rfl e hrefused
    obtain ⟨hbefore, haccepted⟩ := refusal?_of_firstRefusal?_append h
    rw [(refusal?_eq_some_iff hbefore).mpr hrefused] at haccepted
    cases haccepted
  · intro haccepts
    cases hfirst : p.firstRefusal? unit keyOf [] ds with
    | none => rfl
    | some e =>
      obtain ⟨before, d, after, rfl, hbefore, hrefused⟩ := firstRefusal?_eq_some_iff.mp hfirst
      exact absurd ((refusal?_eq_some_iff hbefore).mp hrefused) (haccepts before d after rfl e)

/-- The first refusal is that of a declaration that is refused while none before it is. -/
theorem firstRefusal?_eq_some_iff_refuses {ds : List Declaration} :
    p.firstRefusal? unit keyOf [] ds = some e ↔ ∃ before d after, ds = before ++ d :: after ∧
      p.Accepts unit keyOf before ∧ p.Refuses unit keyOf before d e := by
  rw [firstRefusal?_eq_some_iff]
  refine exists_congr fun before => exists_congr fun d => exists_congr fun after =>
    and_congr_right fun _ => ?_
  rw [firstRefusal?_eq_none_iff.symm]
  exact and_congr_right fun hbefore => refusal?_eq_some_iff hbefore

/-- No declaration is refused because of an empty package. -/
theorem Refuses.ne_emptyPackage {path : String} (h : p.Refuses unit keyOf before d e) :
    e ≠ .emptyPackage path := by
  cases h <;> exact fun heq => by cases heq

end Program

/-! ## Results -/

section Results

variable {p : Program} {k : CheckedPackage}

/-- A run over a package of a well-formed program comes to a result. -/
theorem exists_graph_eq_ok (hp : p.Closed) (hg : p.Grounded) (hk : p.Covers k)
    (options : GraphOptions) (keys : KeyStore) :
    ∃ result keys', p.graph k options keys = (.ok result, keys') := by
  obtain ⟨placement, hplacement, hprogram, hpkg, hfacts, hplaceable⟩ :=
    PlacementContext.answers_ofPackage hp hg.scopes hg.names hk options.labelling
  obtain ⟨owner, howner, -⟩ := Program.answers_package hk.package
  have hplaced : placement.program.HasPackage placement.pkg := by
    rw [hprogram, hpkg]
    exact hk.package
  obtain ⟨places, hplaces, -⟩ := PlacementContext.answers_placePackage hplaceable hplaced .empty
  let c : GraphContext := ⟨p, k, owner.path, placement, places⟩
  have hc : p.graphContext k owner.path placement = .ok c :=
    bind_eq_ok_iff.mpr ⟨places, hplaces, rfl⟩
  have hready : c.Ready := ⟨hp, hg, hk, hprogram, hfacts⟩
  obtain ⟨_, last, hrun, -⟩ := GraphContext.proceeds_emitAll hready options.includeDocs
    (.start keys) fun obj type h => by cases h
  have hprepared : (do
      let placement ← PlacementContext.ofPackage p k options.labelling
      return (← p.package k.pkg, placement) : Except Fault (Package × PlacementContext)) =
        .ok (owner, placement) :=
    bind_eq_ok_iff.mpr ⟨placement, hplacement, bind_eq_ok_iff.mpr ⟨owner, howner, rfl⟩⟩
  unfold Program.graph
  dsimp only
  rw [hprepared]
  dsimp only
  split
  · exact ⟨_, _, rfl⟩
  · rw [hc]
    dsimp only
    rw [hrun]
    unfold Program.outcome
    dsimp only
    split
    · exact ⟨_, _, rfl⟩
    · exact ⟨_, _, rfl⟩

/-- What the stages of a run come to is said by its declarations: the error of the first refusal,
if there is one, and else a graph. -/
theorem Stages.result_eq_error_iff {c : GraphContext} {includeDocs : Bool} {keys : KeyStore}
    {packaged visited last : Emission} (h : Stages c includeDocs keys packaged visited last)
    (e : GraphError) :
    last.result = .error e ↔
      c.program.firstRefusal? c.unit (last.keys.keyOf? c.package.pkg) []
        (c.program.declarations c.package
          ((graphWalk c.program.tree c.package.files).visited.map Visit.node)) = some e := by
  rw [← h.ledger.error]
  unfold Emission.result
  cases last.error <;> simp

/-- A run over a package whose files are there ends in an error for want of files if it has none.
Otherwise it ends in the error of the earliest declaration that is refused, if one is, and else in a
graph; up to that declaration all keys have been looked up. Over a well-formed program a run ends
in one of these. -/
theorem result_eq_error_iff_refused (ht : p.tree.ChildrenFirst)
    (hfiles : ∀ file ∈ k.files, p.tree.HasNode file) (options : GraphOptions) (keys : KeyStore) :
    (p.Closed → p.Grounded → p.Covers k →
      ∃ result keys', p.graph k options keys = (.ok result, keys')) ∧
    ∀ result keys', p.graph k options keys = (.ok result, keys') →
      ∃ owner, p.package k.pkg = .ok owner ∧
        (k.files = [] → result = .error (.emptyPackage owner.path)) ∧
        (∀ path, result = .error (.emptyPackage path) → k.files = []) ∧
        (k.files ≠ [] → ∃ (c : GraphContext) (nodes : List NodeId),
          c.Of p k options.labelling owner ∧ p.tree.Reads k.files nodes ∧ c.Found keys keys' ∧
          (∀ before d after, p.declarations k nodes = before ++ d :: after →
            p.Accepts owner.path (keys'.keyOf? k.pkg) before → p.undeclarable? d.obj = none →
            c.Looked keys' d) ∧
          ∀ e, result = .error e ↔
            ∃ before d after, p.declarations k nodes = before ++ d :: after ∧
              p.Accepts owner.path (keys'.keyOf? k.pkg) before ∧
              p.Refuses owner.path (keys'.keyOf? k.pkg) before d e) := by
  refine ⟨fun hp hg hk => exists_graph_eq_ok hp hg hk options keys, fun result keys' hgraph => ?_⟩
  obtain ⟨owner, howner, ⟨hempty, rfl⟩ | ⟨hne, c, packaged, visited, last, hc, hrun, rfl, rfl⟩⟩ :=
    stages_of_graph_eq_ok hgraph
  · exact ⟨owner, howner, fun _ => rfl, fun _ _ => hempty, fun hne => absurd hempty hne⟩
  · have hresult := hrun.result_eq_error_iff
    have hlooked := @Ledger.looked _ _ _ _ hrun.ledger
    obtain ⟨hfound, -⟩ := hrun.found
    rw [hc.program, hc.package, hc.unit] at hresult hlooked
    refine ⟨owner, howner, fun hempty => absurd hempty hne, fun path hpath => ?_, fun _ =>
      ⟨c, _, hc, reads_graphWalk (graphWalk_fault_eq_none ht hfiles), hfound,
        fun before d after hsplit haccepts => ?_, fun e => ?_⟩⟩
    · obtain ⟨before, d, after, -, -, hrefused⟩ :=
        Program.firstRefusal?_eq_some_iff_refuses.mp ((hresult _).mp hpath)
      exact absurd rfl hrefused.ne_emptyPackage
    · exact hlooked hsplit (Program.firstRefusal?_eq_none_iff.mpr haccepts)
    · exact (hresult e).trans Program.firstRefusal?_eq_some_iff_refuses

end Results

/-! ### Two constants with one key -/

namespace Twins

/-- A file that declares two constants, which belong to no package, under different names. -/
def program : Program where
  sources := ⟨#[⟨"p.go", ""⟩]⟩
  tree := ⟨#[⟨.ident "a", ⟨0⟩, .upTo 1, some ⟨2⟩⟩, ⟨.ident "b", ⟨0⟩, .upTo 1, some ⟨2⟩⟩,
    ⟨.valueSpec [⟨0⟩, ⟨1⟩] none [] none none, ⟨0⟩, .upTo 1, some ⟨3⟩⟩,
    ⟨.genDecl .constDecl [⟨2⟩] none, ⟨0⟩, .upTo 1, some ⟨5⟩⟩,
    ⟨.ident "p", ⟨0⟩, .upTo 1, some ⟨5⟩⟩, ⟨.file ⟨4⟩ [⟨3⟩] none [], ⟨0⟩, .upTo 1, none⟩]⟩
  objects := #[⟨"c", .const, none, none, none, none⟩, ⟨"c", .const, none, none, none, none⟩]
  types := #[]
  scopes := #[⟨none, [⟨1⟩], []⟩, ⟨some ⟨0⟩, [], []⟩]
  packages := #[⟨"p", "p", ⟨0⟩⟩]

/-- The package as it was checked, with both constants declared. -/
def package : CheckedPackage where
  pkg := ⟨0⟩
  files := [⟨5⟩]
  facts := { Facts.empty with
    defs := ⟨[(⟨0⟩, ⟨0⟩), (⟨1⟩, ⟨1⟩)]⟩
    scopes := ⟨[(⟨5⟩, ⟨1⟩)]⟩ }

/-- The same package with no identifier declared; another node is recorded to declare an object that
is not there. -/
def adrift : CheckedPackage where
  pkg := ⟨0⟩
  files := [⟨5⟩]
  facts := { Facts.empty with
    defs := ⟨[(⟨2⟩, ⟨99⟩)]⟩
    scopes := ⟨[(⟨5⟩, ⟨1⟩)]⟩ }

/-- Everything that the program refers to is there. -/
theorem closed : program.Closed where
  objects := by decide
  types := by decide
  scopes := by decide
  packages := by decide
  parents := by decide
  children := by decide

/-- There are no cycles: scopes have greater numbers than the scopes around them, and there are no
types. -/
theorem grounded : program.Grounded where
  scopes := by
    have hall : ∀ x ∈ program.childList, x.1.index < x.2.index := by decide
    exact acyclic_of_lt fun parent child h => hall _ (Program.HasChild.mem_childList h)
  names := @acyclic_of_lt _ _ TypeId.index fun type next ⟨found, htype, _⟩ => by cases htype
  types := @acyclic_of_lt _ _ TypeId.index fun type part h => by
    cases h with
    | elem htype _ => cases htype
    | member htype _ _ _ => cases htype

/-- What is recorded about the package is there. -/
theorem covers : program.Covers package where
  package := by decide
  files := by decide
  defs := by decide
  uses := by decide
  implicits := by decide
  selections := by decide
  scopes := by decide

/-- The error that a run ends in, if it does not end in a fault or a graph. -/
def error? : GraphOutcome → Option GraphError
  | .ok (.error e) => some e
  | _ => none

/-- The fault that a run ends in, if it does. -/
def fault? : GraphOutcome → Option Fault
  | .error f => some f
  | .ok _ => none

/-- The file is read in this order. -/
theorem reads (k : CheckedPackage) (hfiles : k.files = [⟨5⟩]) :
    program.tree.Reads k.files [⟨5⟩, ⟨4⟩, ⟨3⟩, ⟨2⟩, ⟨0⟩, ⟨1⟩] := by
  rw [hfiles]
  exact reads_graphWalk rfl

end Twins

/-- The second of the two constants is refused for the key that the first one has. -/
theorem refused_twins : Twins.program.tree.ChildrenFirst ∧
    (∀ file ∈ Twins.package.files, Twins.program.tree.HasNode file) ∧
    Twins.program.Closed ∧ Twins.program.Grounded ∧ Twins.program.Covers Twins.package ∧
    ∃ keys, Twins.program.graph Twins.package .standard .empty =
        (.ok (.error (.duplicateKey "builtin#c" (some ⟨0⟩) ⟨1⟩)), keys) ∧
      ∃ before d after, Twins.program.declarations Twins.package
          [⟨5⟩, ⟨4⟩, ⟨3⟩, ⟨2⟩, ⟨0⟩, ⟨1⟩] = before ++ d :: after ∧
        Twins.program.Accepts "p" (keys.keyOf? ⟨0⟩) before ∧
        Twins.program.Refuses "p" (keys.keyOf? ⟨0⟩) before d
          (.duplicateKey "builtin#c" (some ⟨0⟩) ⟨1⟩) := by
  have hrun : Twins.error? (Twins.program.graph Twins.package .standard .empty).1 =
      some (.duplicateKey "builtin#c" (some ⟨0⟩) ⟨1⟩) := by
    decide +kernel
  obtain ⟨hresult, hends⟩ := result_eq_error_iff_refused (p := Twins.program) (k := Twins.package)
    (by decide) (by decide) .standard .empty
  obtain ⟨result, keys, hgraph⟩ := hresult Twins.closed Twins.grounded Twins.covers
  obtain ⟨owner, howner, -, -, hrefused⟩ := hends result keys hgraph
  cases howner
  obtain ⟨c, nodes, -, hreads, -, -, herror⟩ := hrefused (by decide)
  obtain rfl := hreads.unique (Twins.reads _ rfl)
  rw [hgraph] at hrun
  cases result with
  | ok g => cases hrun
  | error e =>
    cases hrun
    exact ⟨by decide, by decide, Twins.closed, Twins.grounded, Twins.covers, keys, hgraph,
      (herror _).mp rfl⟩

/-- Where something is recorded about an object that is not there, a run ends in a fault although
nothing is declared that could be refused. -/
theorem exists_graph_faulting : Twins.program.tree.ChildrenFirst ∧ Twins.adrift.files ≠ [] ∧
    Twins.program.tree.Reads Twins.adrift.files [⟨5⟩, ⟨4⟩, ⟨3⟩, ⟨2⟩, ⟨0⟩, ⟨1⟩] ∧
    Twins.program.declarations Twins.adrift [⟨5⟩, ⟨4⟩, ⟨3⟩, ⟨2⟩, ⟨0⟩, ⟨1⟩] = [] ∧
    ∀ result keys, Twins.program.graph Twins.adrift .standard .empty ≠ (.ok result, keys) := by
  have hrun : Twins.fault? (Twins.program.graph Twins.adrift .standard .empty).1 =
      some .outOfRange := by
    decide +kernel
  refine ⟨by decide, by decide, Twins.reads _ rfl, by decide, fun result keys hgraph => ?_⟩
  rw [hgraph] at hrun
  cases hrun

end SymbolGraph
