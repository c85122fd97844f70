import SymbolGraph.Global.Conversion
import SymbolGraph.Proofs.Placement.OneFile
import SymbolGraph.Proofs.Resolve.History
import SymbolGraph.Proofs.Run.Ledger

/-!
# Consistent graphs

What the definitions of a graph that a run ends in have to do with each other, with what is
declared, and with the references (`PackageGraph.Consistent`). The first definition, and no other,
is that of the package. Every other one is added by a declaration (`Program.Defines`); no two are
added for one object, and no two have a key with the same text. Where a definition's name stands
there is a reference to it, unless an import without a name stands there: the name was visited
after the declaration, and whatever an identifier declares it also mentions.

Made global, definitions of one import path keep different keys (`toGlobal_key_ne`), because the
text of their keys is told apart by the path alone, of which only the empty one is replaced.
-/

namespace SymbolGraph

open Text

/-! ## What is declared is mentioned -/

/-- Ranges with one span are one range. -/
theorem TextRange.span_injective {r r' : TextRange} (h : r.span = r'.span) : r = r' := by
  obtain ⟨start, stop, _⟩ := r
  obtain ⟨start', stop', _⟩ := r'
  cases h
  rfl

namespace Program

variable {p : Program} {k : CheckedPackage} {nodes : List NodeId}

/-- An import without a name, that is, one with an object of its own, is among the nodes and
stands at a place. -/
def ImportsAt (p : Program) (k : CheckedPackage) (nodes : List NodeId) (file : FileId)
    (range : TextRange) : Prop :=
  ∃ node ∈ nodes, ∃ n name path doc comment, p.tree.node node = .ok n ∧
    n.kind = .importSpec name path doc comment ∧ (k.facts.implicits.get? node).isSome ∧
    n.file = file ∧ n.range = range

/-- Where a mention notes an import, there is one. -/
theorem importsAt_of_importPlace? {imports : List (FileId × Span)} {node : NodeId} {m : Mention}
    {file : FileId} {range : TextRange} (hnode : node ∈ nodes)
    (hm : p.mention? k imports node = some m) (hplace : m.importPlace? = some (file, range.span)) :
    p.ImportsAt k nodes file range := by
  unfold mention? at hm
  cases hn : p.tree.node node with
  | error f => rw [hn] at hm; cases hm
  | ok n =>
    rw [hn] at hm
    dsimp only at hm
    split at hm
    · split at hm
      · cases hm
        cases hplace
      · cases hm
    · rename_i name path doc comment hkind
      obtain ⟨obj, hobj, rfl⟩ := Option.map_eq_some_iff.mp hm
      unfold Mention.importPlace? at hplace
      obtain ⟨hfile, hspan⟩ := Prod.mk.inj (Option.some.inj hplace)
      exact ⟨node, hnode, n, name, path, doc, comment, hn, hkind, by rw [hobj]; rfl, hfile,
        TextRange.span_injective hspan⟩
    · split at hm
      · cases hm
      · obtain ⟨obj, -, rfl⟩ := Option.map_eq_some_iff.mp hm
        cases hplace
    · cases hm

/-- A name that declares an object mentions it, unless an import without a name stands there. -/
theorem mem_mentionsFrom {imports : List (FileId × Span)} {node : NodeId} {n : Node}
    {obj : ObjectId} (hnode : node ∈ nodes) (hn : p.tree.node node = .ok n)
    (hobj : p.declaredObject? k node = some obj) (himport : ¬ p.ImportsAt k nodes n.file n.range)
    (hfree : (n.file, n.range.span) ∉ imports) :
    ⟨n.file, n.range, .object obj true⟩ ∈ p.mentionsFrom k imports nodes := by
  induction nodes generalizing imports with
  | nil => cases hnode
  | cons first rest ih =>
    rw [mentionsFrom_cons]
    rcases List.mem_cons.mp hnode with rfl | hrest
    · refine List.mem_append_left _ (Option.mem_toList.mpr ?_)
      obtain ⟨n', text, hn', hkind, hblank, hdef, hpackage⟩ := declaredObject?_eq_some hobj
      rw [hn] at hn'
      cases hn'
      have hnamed : k.facts.objectOf? node = some obj := by
        unfold Facts.objectOf?
        rw [hdef]
        rfl
      have hisDef : k.facts.isDef node = true := by
        unfold Facts.isDef Table.contains
        rw [hdef]
        rfl
      simp only [mention?, hn, hkind, hnamed, hisDef]
      rw [if_neg fun h => h.elim hblank hfree, Option.map_some, hpackage]
      rfl
    · refine List.mem_append_right _ (ih hrest ?_ ?_)
      · rintro ⟨other, hother, hat⟩
        exact himport ⟨other, List.mem_cons_of_mem _ hother, hat⟩
      · intro hmem
        rcases List.mem_append.mp hmem with hfirst | hold
        · obtain ⟨m, hm, hplace⟩ := Option.bind_eq_some_iff.mp (Option.mem_toList.mp hfirst)
          exact himport (importsAt_of_importPlace? List.mem_cons_self hm hplace)
        · exact hfree hold

end Program

/-! ## Definitions of a package -/

/-- The graph has a reference, as from a definition, at the place of a definition's name. -/
def PackageGraph.RefersTo (g : PackageGraph) (x : Def) : Prop :=
  ∃ r ∈ g.refs, r.isDef = true ∧ r.target = x.key ∧ r.file = x.file ∧ r.span = x.identSpan

/-- The definitions of a graph are that of the package and those that some declarations add, at
most one for an object, with keys that differ as texts. Each of the latter is referred to where it
stands, unless an import without a name stands there. -/
structure PackageGraph.Consistent (g : PackageGraph) (p : Program) (k : CheckedPackage)
    (unit : String) (nodes : List NodeId) (last : KeyStore) : Prop where
  package : ∃ first rest, g.defs = first :: rest ∧ first.kind = .package ∧
    first.key = .ofPackage unit ∧ ∀ x ∈ rest, x.kind ≠ .package
  texts : (g.defs.map fun x => x.key.text).Nodup
  declared : ∃ made, List.Sublist made (p.declarations k nodes) ∧
    (made.map fun d => d.obj).Nodup ∧
    List.Forall₂ (fun d x => p.Defines k last d x ∧
      ∀ n, p.tree.node d.name = .ok n → ¬ p.ImportsAt k nodes n.file n.range → g.RefersTo x)
      made g.defs.tail

variable {p : Program} {k : CheckedPackage} {options : GraphOptions} {keys keys' last : KeyStore}
  {g : PackageGraph}

/-- Declarations that add definitions with different keys declare different objects. -/
theorem nodup_objects {made : List Declaration} {rest : List Def}
    (hmade : List.Forall₂ (p.Defines k last) made rest)
    (htexts : (rest.map fun x => x.key.text).Nodup) : (made.map fun d => d.obj).Nodup := by
  induction hmade with
  | nil => exact List.nodup_nil
  | @cons d x made rest hdefines hmade ih =>
    rw [List.map_cons, List.nodup_cons] at htexts ⊢
    refine ⟨fun hmem => htexts.1 ?_, ih htexts.2⟩
    -- another declaration of the object would have added a definition with its key
    obtain ⟨d', hd', hobj⟩ := List.mem_map.mp hmem
    obtain ⟨i, hi, rfl⟩ := List.mem_iff_getElem.mp hd'
    have hlength := hmade.length_eq
    have hother := (hmade.get hi (by omega)).key
    rw [List.get_eq_getElem, hobj, hdefines.key] at hother
    refine List.mem_map.mpr ⟨_, List.getElem_mem (by omega : i < rest.length), ?_⟩
    rw [List.get_eq_getElem] at hother
    rw [Option.some.inj hother]

/-- The definitions of a graph that a run ends in are consistent. -/
theorem consistent_of_graph_eq_ok (h : p.graph k options keys = (.ok (.ok g), keys')) :
    ∃ owner nodes, p.package k.pkg = .ok owner ∧ p.tree.Reads k.files nodes ∧
      g.Consistent p k owner.path nodes keys' := by
  obtain ⟨c, owner, packaged, visited, last, hc, hrun, rfl, rfl⟩ := completes_of_graph_eq_ok h
  obtain ⟨hprogram, hpackage, howner, hunit, -, -⟩ := hc
  subst hprogram hpackage
  have hreads := reads_graphWalk hrun.uncut
  have herror : last.error = none := hrun.stages.error.trans hrun.faultless
  obtain ⟨⟨first, rest, made, hdefs, hkind, hkey, hsub, hmade⟩, htexts, -⟩ :=
    hrun.stages.ledger.defs herror
  have hrefs := (hrun.stages.tells hrun.faultless).refs
  refine ⟨owner, _, howner, hreads, ?_, htexts, made, hsub, ?_, ?_⟩
  · refine ⟨first, rest, hdefs, hkind, hunit ▸ hkey, fun x hx => ?_⟩
    obtain ⟨i, hi, rfl⟩ := List.mem_iff_getElem.mp hx
    have hlength := hmade.length_eq
    exact (hmade.get (by omega : i < made.length) hi).kind
  · rw [hdefs] at htexts
    exact nodup_objects hmade (List.nodup_cons.mp htexts).2
  · rw [hdefs]
    have hdeclared := (List.forall₂_and_left _ _).mpr ⟨fun d hd => hsub.mem hd, hmade⟩
    refine hdeclared.imp fun d x ⟨hd, hx⟩ => ⟨hx, fun n hn himport => ?_⟩
    -- the name is read after the declaration, and mentions what it declares
    obtain ⟨hnode, hname, hobj⟩ := Program.mem_declarations hd
    have hmention := Program.mem_mentionsFrom
      (Program.mem_of_presented hreads hnode hname) hn hobj himport
      (List.not_mem_nil : (n.file, n.range.span) ∉ [])
    obtain ⟨n', hn', hfile, hspan⟩ := hx.place
    rw [hn] at hn'
    cases hn'
    refine ⟨⟨c.unit, x.file, x.identSpan, x.key, true⟩, ?_, rfl, rfl, rfl, rfl⟩
    rw [hrefs]
    refine List.mem_append_right _ (List.mem_filterMap.mpr ⟨_, hmention, ?_⟩)
    simp only [Mention.ref?, Named.key?, hx.key, Option.map_some, hfile, hspan, Named.isDef]

/-! ## Global definitions -/

/-- Records are converted one by one; those that cannot be are left out. -/
theorem convertAll_skip {ρ α : Type} (convert : ρ → Resolving α)
    (fail : ρ → ResolveError → ConversionError) (list : List ρ) (s : ResolverState) :
    ∃ out errors s', convertAll .skip convert fail list s = (.ok (out, errors), s') ∧
      ∃ stems, List.Sublist stems list ∧
        List.Forall₂ (fun x y => ∃ t t', convert x t = (.ok (some y), t')) stems out := by
  induction list generalizing s with
  | nil => exact ⟨[], [], s, rfl, [], .refl _, .nil⟩
  | cons x rest ih =>
    unfold convertAll
    cases hx : convert x s with
    | mk result s₁ =>
      obtain ⟨out, errors, s', hrest, stems, hsub, hstems⟩ := ih s₁
      cases result with
      | error e =>
        dsimp only
        rw [hrest]
        exact ⟨out, _, s', rfl, stems, hsub.cons x, hstems⟩
      | ok y? =>
        dsimp only
        rw [hrest]
        cases y? with
        | none => exact ⟨out, errors, s', rfl, stems, hsub.cons x, hstems⟩
        | some y => exact ⟨y :: out, errors, s', rfl, x :: stems, hsub.cons_cons x,
            .cons ⟨s, s₁, hx⟩ hstems⟩

/-- Only a path of one full stop is written as one. -/
theorem eq_singleton_of_joinStrings {path : DefPath} (h : joinStrings "/" path = ".") :
    path = ["."] := by
  cases path with
  | nil => exact absurd h (by decide)
  | cons part rest =>
    cases rest with
    | nil => exact congrArg (· :: []) h
    | cons next rest =>
      have hchars := congrArg String.toList h
      simp only [joinStrings, String.toList_append] at hchars
      cases hpart : part.toList with
      | nil =>
        rw [hpart] at hchars
        exact absurd (List.head_eq_of_cons_eq hchars) (by decide)
      | cons ch chars =>
        rw [hpart] at hchars
        have htail := List.tail_eq_of_cons_eq hchars
        simp at htail

/-- The path of a global key is the text of the path, or a full stop. -/
theorem eq_of_toGlobal_path {a b : DefKey} {t u : Target} (hb : "." ∉ b.path)
    (hempty : a.joinedPath.isEmpty = true) (h : (a.toGlobal t).path = (b.toGlobal u).path) :
    b.joinedPath = a.joinedPath := by
  unfold DefKey.toGlobal at h
  dsimp only at h
  rw [if_pos hempty] at h
  split at h
  · rename_i hempty'
    rw [String.isEmpty_iff.mp hempty, String.isEmpty_iff.mp hempty']
  · have hpath := eq_singleton_of_joinStrings h.symm
    rw [hpath] at hb
    exact absurd List.mem_cons_self hb

/-- Keys of one package that differ as texts have different global keys, if no component of their
paths is a full stop. -/
theorem toGlobal_key_ne {a b : DefKey} {t u : Target} (hpkg : a.pkg = b.pkg)
    (htext : a.text ≠ b.text) (ha : "." ∉ a.path) (hb : "." ∉ b.path) :
    a.toGlobal t ≠ b.toGlobal u := by
  intro h
  have hpath : (a.toGlobal t).path = (b.toGlobal u).path := congrArg GlobalKey.path h
  refine htext ?_
  have hjoined : a.joinedPath = b.joinedPath := by
    by_cases hempty : a.joinedPath.isEmpty = true
    · exact (eq_of_toGlobal_path hb hempty hpath).symm
    · by_cases hempty' : b.joinedPath.isEmpty = true
      · exact eq_of_toGlobal_path ha hempty' hpath.symm
      · unfold DefKey.toGlobal at hpath
        dsimp only at hpath
        rwa [if_neg hempty, if_neg hempty'] at hpath
  unfold DefKey.text
  rw [hpkg, hjoined]

/-- A global definition is what a definition was converted to at some time. -/
def GlobalDef.StemsFrom (r : Resolver) (root : UnixPath) (d : Def) (x : GlobalDef) : Prop :=
  ∃ t t', d.toGlobal r root t = (.ok (some x), t')

/-- Made global, definitions whose keys differ as texts keep different keys in each package, if no
component of their paths is a full stop. -/
theorem pairwise_toGlobal {r : Resolver} {root : UnixPath} {stems : List Def}
    {out : List GlobalDef} (hstems : List.Forall₂ (GlobalDef.StemsFrom r root) stems out)
    (htexts : (stems.map fun d => d.key.text).Nodup) :
    (stems.zip out).Pairwise fun a b => a.1.key.pkg = b.1.key.pkg → "." ∉ a.1.key.path →
      "." ∉ b.1.key.path → a.2.key ≠ b.2.key := by
  induction hstems with
  | nil => exact .nil
  | @cons d x stems out hd hrest ih =>
    rw [List.map_cons, List.nodup_cons] at htexts
    rw [List.zip_cons_cons, List.pairwise_cons]
    refine ⟨fun b hb hpkg hdot hdot' => ?_, ih htexts.2⟩
    obtain ⟨_, _, hconverted⟩ := hd
    obtain ⟨_, _, hconverted'⟩ := List.forall₂_zip hrest hb
    obtain ⟨target, -, hkey⟩ := Def.toGlobal_eq_ok hconverted
    obtain ⟨target', -, hkey'⟩ := Def.toGlobal_eq_ok hconverted'
    rw [hkey, hkey']
    refine toGlobal_key_ne hpkg (fun htext => htexts.1 ?_) hdot hdot'
    exact List.mem_map.mpr ⟨b.1, (List.of_mem_zip hb).1, htext.symm⟩

/-- **Definitions are consistent.** The graph that a run ends in has one definition for the package
and at most one for every other object, with keys that differ as texts, and refers to each where
its name stands, unless an import without a name stands there. Made global, those whose keys are
of one package still have different keys, as long as no component of their paths is a full stop;
records that cannot be converted are left out. -/
theorem defs_consistent (h : p.graph k options keys = (.ok (.ok g), keys')) :
    ∃ owner nodes, p.package k.pkg = .ok owner ∧ p.tree.Reads k.files nodes ∧
      g.Consistent p k owner.path nodes keys' ∧
      ∀ (r : Resolver) (root : UnixPath) (s : ResolverState), ∃ out errors s' stems,
        g.toGlobal r root .skip s = (.ok (out, errors), s') ∧ List.Sublist stems g.defs ∧
        List.Forall₂ (GlobalDef.StemsFrom r root) stems out.defs ∧
        (stems.zip out.defs).Pairwise fun a b => a.1.key.pkg = b.1.key.pkg →
          "." ∉ a.1.key.path → "." ∉ b.1.key.path → a.2.key ≠ b.2.key := by
  obtain ⟨owner, nodes, howner, hreads, hg⟩ := consistent_of_graph_eq_ok h
  refine ⟨owner, nodes, howner, hreads, hg, fun r root s => ?_⟩
  obtain ⟨defs, defErrors, s₁, hdefs, stems, hsub, hstems⟩ := convertAll_skip
    (fun d => Def.toGlobal d r root) (fun d e => ⟨.definition, d.name, e⟩) g.defs s
  obtain ⟨refs, refErrors, s₂, hrefs, -⟩ := convertAll_skip
    (fun x => Ref.toGlobal x r root) (fun x e => ⟨.reference, x.target.text, e⟩) g.refs s₁
  obtain ⟨docs, docErrors, s₃, hdocs, -⟩ := convertAll_skip
    (fun d => Doc.toGlobal d r root) (fun d e => ⟨.documentation, d.messageName, e⟩) g.docs s₂
  refine ⟨⟨defs, refs, docs⟩, defErrors ++ refErrors ++ docErrors, s₃, stems, ?_, hsub, hstems,
    pairwise_toGlobal hstems (hg.texts.sublist (hsub.map _))⟩
  unfold PackageGraph.toGlobal
  rw [hdefs]
  dsimp only
  rw [hrefs]
  dsimp only
  rw [hdocs]

/-- The package whose functions stand side by side has definitions for itself and for both, and
they are consistent. -/
theorem defs_consistent_layout : ∃ g keys owner nodes,
    Layout.apart.program.graph Layout.package .standard .empty = (.ok (.ok g), keys) ∧
      g.defs.map (fun d => d.key.path) = [[], ["f"], ["g"]] ∧
      Layout.apart.program.package ⟨0⟩ = .ok owner ∧
      Layout.apart.program.tree.Reads [⟨9⟩] nodes ∧
      g.Consistent Layout.apart.program Layout.package owner.path nodes keys := by
  have hrun : (Layout.apart.program.graph Layout.package .standard .empty).1.toOption.bind
      (fun result => result.toOption.map fun g => g.defs.map fun d => d.key.path) =
        some [[], ["f"], ["g"]] := by
    decide +kernel
  obtain ⟨result, keys, hgraph⟩ : ∃ result keys,
      Layout.apart.program.graph Layout.package .standard .empty = (result, keys) := ⟨_, _, rfl⟩
  rw [hgraph] at hrun
  cases result with
  | error f => cases hrun
  | ok result =>
    cases result with
    | error e => cases hrun
    | ok g =>
      obtain ⟨owner, nodes, howner, hreads, hconsistent, -⟩ := defs_consistent hgraph
      exact ⟨g, keys, owner, nodes, hgraph, Option.some.inj hrun, howner, hreads, hconsistent⟩

end SymbolGraph
