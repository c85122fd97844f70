import SymbolGraph.Proofs.Run.Ledger

/-!
# Defining occurrences

A reference that is marked as a definition is made by an identifier that is recorded to declare an
object, and a definition by a node that presents the identifier as declared. The two agree: an
object that is declared has a definition with its key (`exists_def_of_presented`), and so there is
one for every reference that is marked, as long as identifiers are recorded where nodes declare them
(`exists_def_of_isDef`).

One declaring position is left out by the nodes (`SyntaxTree.EmbedsQualified`): an embedded field
whose type belongs to another package is declared by the name of the type, which stands inside a
selector, but only the selector itself is presented. A sample shows that the field has then no
definition, although it is referred to as if it had (`exists_isDef_without_def`).
-/

namespace SymbolGraph

/-! ## Declaring positions -/

namespace SyntaxTree

/-- A name stands where a node of some shape declares it. A field without names is embedded, and is
declared by the name of its type or of the type that this points to. -/
inductive DeclaresName (t : SyntaxTree) : NodeKind → NodeId → Prop
  | typeSpec {name type : NodeId} {doc comment : Option CommentGroup} :
      DeclaresName t (.typeSpec name type doc comment) name
  | funcDecl {recv body : Option NodeId} {name type : NodeId} {doc : Option CommentGroup} :
      DeclaresName t (.funcDecl recv name type body doc) name
  | valueSpec {names values : List NodeId} {type : Option NodeId} {name : NodeId}
      {doc comment : Option CommentGroup} : name ∈ names →
      DeclaresName t (.valueSpec names type values doc comment) name
  | assign {left right : List NodeId} {define : Bool} {name : NodeId} : name ∈ left →
      DeclaresName t (.assignStmt left right define) name
  | rangeKey {name operand body : NodeId} {value : Option NodeId} :
      DeclaresName t (.rangeStmt (some name) value operand body) name
  | rangeValue {name operand body : NodeId} {key : Option NodeId} :
      DeclaresName t (.rangeStmt key (some name) operand body) name
  | field {names : List NodeId} {name type : NodeId} {doc comment : Option CommentGroup} :
      name ∈ names → DeclaresName t (.field names type doc comment) name
  | embedded {type : NodeId} {doc comment : Option CommentGroup} :
      DeclaresName t (.field [] type doc comment) type
  | embeddedPointer {type name : NodeId} {doc comment : Option CommentGroup} :
      t.kind type = .ok (.starExpr name) → DeclaresName t (.field [] type doc comment) name

/-- A name stands where a node embeds a field of a type of another package, or of a pointer to
one. -/
inductive EmbedsQualified (t : SyntaxTree) : NodeKind → NodeId → Prop
  | value {type operand name : NodeId} {doc comment : Option CommentGroup} :
      t.kind type = .ok (.selectorExpr operand name) →
      EmbedsQualified t (.field [] type doc comment) name
  | pointer {type target operand name : NodeId} {doc comment : Option CommentGroup} :
      t.kind type = .ok (.starExpr target) → t.kind target = .ok (.selectorExpr operand name) →
      EmbedsQualified t (.field [] type doc comment) name

/-- One of some nodes declares a name. -/
def DeclaresAmong (t : SyntaxTree) (nodes : List NodeId) (name : NodeId) : Prop :=
  ∃ node ∈ nodes, ∃ kind, t.kind node = .ok kind ∧ t.DeclaresName kind name

/-- One of some nodes embeds a field that a name in a selector declares. -/
def EmbedsQualifiedAmong (t : SyntaxTree) (nodes : List NodeId) (name : NodeId) : Prop :=
  ∃ node ∈ nodes, ∃ kind, t.kind node = .ok kind ∧ t.EmbedsQualified kind name

end SyntaxTree

namespace Program

variable {p : Program} {files nodes : List NodeId} {node name : NodeId} {kind : NodeKind}

/-- A field presents its names, its type, and what its type points to. -/
theorem presented_field {names : List NodeId} {type : NodeId} {typeKind : NodeKind}
    {doc comment : Option CommentGroup}
    (hkind : p.tree.kind node = .ok (.field names type doc comment))
    (htype : p.tree.kind type = .ok typeKind) :
    p.presented node =
      match typeKind with
      | .starExpr operand => [type, operand] ++ names
      | _ => type :: names := by
  refine presented_eq hkind (bind_eq_ok_iff.mpr ⟨typeKind, htype, ?_⟩)
  cases typeKind <;> rfl

/-- A node that is read presents the names that stand where it declares them. -/
theorem mem_presented (h : p.tree.Reads files nodes) (hnode : node ∈ nodes)
    (hkind : p.tree.kind node = .ok kind) (hname : p.tree.DeclaresName kind name) :
    name ∈ p.presented node := by
  -- the type of a field that is read is there
  have htype : ∀ {names type doc comment}, kind = .field names type doc comment →
      ∃ typeKind, p.tree.kind type = .ok typeKind := by
    rintro names type doc comment rfl
    obtain ⟨n, hn, hshape⟩ := SyntaxTree.node_of_kind hkind
    have hmem : type ∈ nodes := by
      refine h.mem_of_readBelow hnode hn ?_
      rw [hshape]
      exact List.mem_append_right _ List.mem_cons_self
    obtain ⟨n', hn'⟩ := h.exists_node type hmem
    exact ⟨n'.kind, SyntaxTree.kind_of_node hn'⟩
  cases hname with
  | typeSpec =>
    rw [presented_eq hkind rfl]
    exact List.mem_cons_self
  | funcDecl =>
    rw [presented_eq hkind rfl]
    exact List.mem_cons_self
  | valueSpec hmem =>
    rw [presented_eq hkind rfl]
    exact hmem
  | assign hmem =>
    rw [presented_eq hkind rfl]
    exact hmem
  | rangeKey =>
    rw [presented_eq hkind rfl]
    exact List.mem_append_left _ List.mem_cons_self
  | rangeValue =>
    rw [presented_eq hkind rfl]
    exact List.mem_append_right _ List.mem_cons_self
  | field hmem =>
    obtain ⟨typeKind, htypeKind⟩ := htype rfl
    rw [presented_field hkind htypeKind]
    split
    · exact List.mem_append_right _ hmem
    · exact List.mem_cons_of_mem _ hmem
  | embedded =>
    obtain ⟨typeKind, htypeKind⟩ := htype rfl
    rw [presented_field hkind htypeKind]
    split
    · exact List.mem_cons_self
    · exact List.mem_cons_self
  | embeddedPointer hstar =>
    rw [presented_field hkind hstar]
    exact List.mem_cons_of_mem _ List.mem_cons_self

end Program

/-! ## Definitions of what is declared -/

section

variable {p : Program} {k : CheckedPackage} {options : GraphOptions} {keys keys' : KeyStore}
  {g : PackageGraph} {nodes : List NodeId}

/-- An object that a presented name declares has a definition with its key, if it has one. -/
theorem exists_def_of_presented (h : p.graph k options keys = (.ok (.ok g), keys'))
    (hreads : p.tree.Reads k.files nodes) {node name : NodeId} {obj : ObjectId} {key : DefKey}
    (hnode : node ∈ nodes) (hname : name ∈ p.presented node)
    (hobj : p.declaredObject? k name = some obj) (hkey : keys'.keyOf? k.pkg obj = some key) :
    ∃ x ∈ g.defs, x.key = key := by
  obtain ⟨c, owner, packaged, visited, last, hc, hrun, rfl, rfl⟩ := completes_of_graph_eq_ok h
  obtain ⟨hprogram, hpackage, -, -, -, -⟩ := hc
  subst hprogram hpackage
  obtain rfl := hreads.unique (reads_graphWalk hrun.uncut)
  have hdefined := hrun.stages.ledger.defs (hrun.stages.error.trans hrun.faultless)
  refine hdefined.complete ⟨node, name, obj⟩ (List.mem_flatMap.mpr ⟨node, hnode, ?_⟩) key hkey
  refine List.mem_filterMap.mpr ⟨name, hname, ?_⟩
  unfold Program.declaration?
  rw [hobj]
  rfl

/-- A reference that is marked as a definition is made by an identifier that is read and declares
an object with the key. -/
theorem exists_declares_of_isDef (h : p.graph k options keys = (.ok (.ok g), keys'))
    (hreads : p.tree.Reads k.files nodes) {r : Ref} (hr : r ∈ g.refs) (hdef : r.isDef = true) :
    ∃ name ∈ nodes, ∃ n obj, p.tree.node name = .ok n ∧ r.file = p.sources.name n.file ∧
      r.span = n.range.span ∧ p.declaredObject? k name = some obj ∧
      keys'.keyOf? k.pkg obj = some r.target := by
  obtain ⟨c, owner, packaged, visited, last, hc, hrun, rfl, rfl⟩ := completes_of_graph_eq_ok h
  obtain ⟨hprogram, hpackage, -, -, -, -⟩ := hc
  subst hprogram hpackage
  obtain rfl := hreads.unique (reads_graphWalk hrun.uncut)
  rw [(hrun.stages.tells hrun.faultless).refs] at hr
  obtain ⟨m, hm, href⟩ := List.mem_filterMap.mp hr
  obtain ⟨key, hkey, rfl⟩ := Option.map_eq_some_iff.mp href
  obtain ⟨name, hname, before, hmention⟩ := exists_mention?_of_mem hm
  cases hnamed : m.named with
  | package => rw [hnamed] at hdef; cases hdef
  | imported obj => rw [hnamed] at hdef; cases hdef
  | object obj isDef =>
    rw [hnamed] at hdef hkey
    obtain ⟨n, text, hn, hkind, hblank, hobj, hisDef, hfile, hrange⟩ :=
      mention?_eq_object hmention hnamed
    obtain ⟨hdeclares, hpackage⟩ := Bool.and_eq_true_iff.mp (hisDef.symm.trans hdef)
    refine ⟨name, hname, n, obj, hn, congrArg c.program.sources.name hfile,
      congrArg TextRange.span hrange, ?_, hkey⟩
    -- what a declaring identifier mentions is what it declares
    obtain ⟨found, hfound⟩ := Option.isSome_iff_exists.mp hdeclares
    have hsame : found = obj := by
      unfold Facts.objectOf? at hobj
      rw [hfound] at hobj
      exact Option.some.inj hobj
    unfold Program.declaredObject? SyntaxTree.identName?
    rw [hn]
    simp only [Functor.map, Except.map, hkind, NodeKind.identName?, if_neg hblank, hfound, hsame,
      Option.filter_some, hpackage, if_true]

/-- **Defining occurrences have definitions.** If all identifiers that are recorded to declare
something stand where one of the nodes that are read declares them, or embeds a field of a type of
another package, then every reference that is marked as a definition has a definition with its key,
or else is made by an identifier that stands in the latter position alone. -/
theorem exists_def_of_isDef (h : p.graph k options keys = (.ok (.ok g), keys'))
    (hreads : p.tree.Reads k.files nodes)
    (hpositions : ∀ name ∈ nodes, (k.facts.defs.get? name).isSome →
      p.tree.DeclaresAmong nodes name ∨ p.tree.EmbedsQualifiedAmong nodes name) :
    ∀ r ∈ g.refs, r.isDef = true → (∃ x ∈ g.defs, x.key = r.target) ∨
      ∃ name ∈ nodes, p.tree.EmbedsQualifiedAmong nodes name ∧ ¬ p.tree.DeclaresAmong nodes name ∧
        ∃ n, p.tree.node name = .ok n ∧ r.file = p.sources.name n.file ∧
          r.span = n.range.span := by
  intro r hr hdef
  obtain ⟨name, hname, n, obj, hn, hfile, hspan, hobj, hkey⟩ :=
    exists_declares_of_isDef h hreads hr hdef
  obtain ⟨_, _, -, -, -, hrecorded, -⟩ := Program.declaredObject?_eq_some hobj
  by_cases hdeclared : p.tree.DeclaresAmong nodes name
  · obtain ⟨node, hnode, kind, hkind, hposition⟩ := hdeclared
    exact .inl (exists_def_of_presented h hreads hnode
      (Program.mem_presented hreads hnode hkind hposition) hobj hkey)
  · rcases hpositions name hname (by rw [hrecorded]; rfl) with hposition | hqualified
    · exact absurd hposition hdeclared
    · exact .inr ⟨name, hname, hqualified, hdeclared, n, hn, hfile, hspan⟩

end

/-! ### A struct that embeds a type of another package -/

namespace Embedding

/-- A file of `p` that declares the struct `S` with one embedded field, of the type `T` of the
package `q`. -/
def program : Program where
  sources := ⟨#[⟨"p.go", ""⟩]⟩
  tree := ⟨#[⟨.ident "p", ⟨0⟩, .upTo 1, some ⟨10⟩⟩, ⟨.ident "S", ⟨0⟩, .upTo 2, some ⟨8⟩⟩,
    ⟨.ident "q", ⟨0⟩, .upTo 3, some ⟨4⟩⟩, ⟨.ident "T", ⟨0⟩, .upTo 4, some ⟨4⟩⟩,
    ⟨.selectorExpr ⟨2⟩ ⟨3⟩, ⟨0⟩, .upTo 5, some ⟨5⟩⟩,
    ⟨.field [] ⟨4⟩ none none, ⟨0⟩, .upTo 5, some ⟨6⟩⟩,
    ⟨.fieldList [⟨5⟩], ⟨0⟩, .upTo 6, some ⟨7⟩⟩, ⟨.structType ⟨6⟩, ⟨0⟩, .upTo 7, some ⟨8⟩⟩,
    ⟨.typeSpec ⟨1⟩ ⟨7⟩ none none, ⟨0⟩, .upTo 8, some ⟨9⟩⟩,
    ⟨.genDecl .typeDecl [⟨8⟩] none, ⟨0⟩, .upTo 9, some ⟨10⟩⟩,
    ⟨.file ⟨0⟩ [⟨9⟩] none [], ⟨0⟩, .upTo 9, none⟩]⟩
  objects := #[⟨"S", .typeName, some ⟨0⟩, some ⟨0⟩, none, some ⟨2⟩⟩,
    ⟨"T", .field true, some ⟨0⟩, none, none, some ⟨0⟩⟩,
    ⟨"T", .typeName, some ⟨1⟩, some ⟨2⟩, none, some ⟨0⟩⟩]
  types := #[.named ⟨2⟩ none [], .struct [⟨1⟩], .named ⟨0⟩ (some ⟨1⟩) []]
  scopes := #[⟨none, [⟨1⟩], [("S", ⟨0⟩)]⟩, ⟨some ⟨0⟩, [], []⟩, ⟨none, [], [("T", ⟨2⟩)]⟩]
  packages := #[⟨"p", "p", ⟨0⟩⟩, ⟨"q", "q", ⟨2⟩⟩]

/-- The package `p` as it was checked: the name `T` declares the field and uses the type. -/
def package : CheckedPackage where
  pkg := ⟨0⟩
  files := [⟨10⟩]
  facts := { Facts.empty with
    defs := ⟨[(⟨1⟩, ⟨0⟩), (⟨3⟩, ⟨1⟩)]⟩
    uses := ⟨[(⟨3⟩, ⟨2⟩)]⟩
    scopes := ⟨[(⟨10⟩, ⟨1⟩)]⟩ }

/-- The nodes in the order in which they are read. -/
def nodes : List NodeId := [⟨10⟩, ⟨0⟩, ⟨9⟩, ⟨8⟩, ⟨1⟩, ⟨7⟩, ⟨6⟩, ⟨5⟩, ⟨4⟩, ⟨2⟩, ⟨3⟩]

/-- The file is read in this order. -/
theorem reads : program.tree.Reads package.files nodes := reads_graphWalk rfl

/-- The name of the struct is declared, and that of the field stands in a selector. -/
theorem positions : ∀ name ∈ nodes, (package.facts.defs.get? name).isSome →
    program.tree.DeclaresAmong nodes name ∨ program.tree.EmbedsQualifiedAmong nodes name := by
  have hrecorded : ∀ name ∈ nodes, (package.facts.defs.get? name).isSome →
      name = ⟨1⟩ ∨ name = ⟨3⟩ := by decide
  intro name hname hsome
  rcases hrecorded name hname hsome with rfl | rfl
  · exact .inl ⟨⟨8⟩, by decide, _, rfl, .typeSpec⟩
  · exact .inr ⟨⟨5⟩, by decide, _, rfl, .value rfl⟩

/-- The package is graphed, with a definition for itself and the struct, and references that are
marked as definitions for the struct and the field. -/
theorem graph_eq_ok : ∃ g keys, program.graph package .standard .empty = (.ok (.ok g), keys) ∧
    g.defs.map (fun x => x.key.path) = [[], ["S"]] ∧
    (g.refs.filter (·.isDef)).map (fun r => (r.target, r.span)) =
      [(⟨"p", ["S"]⟩, ⟨0, 2⟩), (⟨"p", ["S", "T"]⟩, ⟨0, 4⟩)] := by
  have hrun : (program.graph package .standard .empty).1.graph?.map
      (fun g => (g.defs.map (fun x => x.key.path),
        (g.refs.filter (·.isDef)).map (fun r => (r.target, r.span)))) =
      some ([[], ["S"]], [(⟨"p", ["S"]⟩, ⟨0, 2⟩), (⟨"p", ["S", "T"]⟩, ⟨0, 4⟩)]) := by
    decide +kernel
  obtain ⟨g, keys, hgraph, hparts⟩ := exists_graph_eq_of_graph? hrun
  exact ⟨g, keys, hgraph, Prod.mk.inj hparts⟩

end Embedding

/-- In the sample every marked reference has a definition or stands in the selector. -/
theorem exists_def_of_isDef_embedding :
    ∃ g keys, Embedding.program.graph Embedding.package .standard .empty = (.ok (.ok g), keys) ∧
      Embedding.program.tree.Reads Embedding.package.files Embedding.nodes ∧
      (∀ name ∈ Embedding.nodes, (Embedding.package.facts.defs.get? name).isSome →
        Embedding.program.tree.DeclaresAmong Embedding.nodes name ∨
          Embedding.program.tree.EmbedsQualifiedAmong Embedding.nodes name) ∧
      ∀ r ∈ g.refs, r.isDef = true → (∃ x ∈ g.defs, x.key = r.target) ∨
        ∃ name ∈ Embedding.nodes,
          Embedding.program.tree.EmbedsQualifiedAmong Embedding.nodes name ∧
          ¬ Embedding.program.tree.DeclaresAmong Embedding.nodes name ∧
          ∃ n, Embedding.program.tree.node name = .ok n ∧
            r.file = Embedding.program.sources.name n.file ∧ r.span = n.range.span := by
  obtain ⟨g, keys, hgraph, -, -⟩ := Embedding.graph_eq_ok
  exact ⟨g, keys, hgraph, Embedding.reads, Embedding.positions,
    exists_def_of_isDef hgraph Embedding.reads Embedding.positions⟩

/-- The embedded field is referred to as a definition, and has none. -/
theorem exists_isDef_without_def :
    Embedding.program.tree.Reads Embedding.package.files Embedding.nodes ∧
    (∀ name ∈ Embedding.nodes, (Embedding.package.facts.defs.get? name).isSome →
      Embedding.program.tree.DeclaresAmong Embedding.nodes name ∨
        Embedding.program.tree.EmbedsQualifiedAmong Embedding.nodes name) ∧
    ∃ g keys, Embedding.program.graph Embedding.package .standard .empty = (.ok (.ok g), keys) ∧
      ∃ r ∈ g.refs, r.isDef = true ∧ ∀ x ∈ g.defs, x.key ≠ r.target := by
  obtain ⟨g, keys, hgraph, hdefs, hrefs⟩ := Embedding.graph_eq_ok
  refine ⟨Embedding.reads, Embedding.positions, g, keys, hgraph, ?_⟩
  have hmem : ((⟨"p", ["S", "T"]⟩, ⟨0, 4⟩) : DefKey × Span) ∈
      (g.refs.filter (·.isDef)).map (fun r => (r.target, r.span)) := by
    rw [hrefs]
    exact List.mem_cons_of_mem _ List.mem_cons_self
  obtain ⟨r, hr, hsame⟩ := List.mem_map.mp hmem
  obtain ⟨htarget, -⟩ := Prod.mk.inj hsame
  obtain ⟨hr, hdef⟩ := List.mem_filter.mp hr
  refine ⟨r, hr, hdef, fun x hx hkey => ?_⟩
  have hpath : x.key.path ∈ g.defs.map (fun x => x.key.path) := List.mem_map.mpr ⟨x, hx, rfl⟩
  rw [hdefs, hkey, htarget] at hpath
  exact absurd hpath (by decide)

end SymbolGraph
