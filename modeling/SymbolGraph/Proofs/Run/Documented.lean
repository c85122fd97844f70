import SymbolGraph.Proofs.Run.Occurrences

/-!
# What is documented

A documentation text with a key is about the package or about an object that some name is recorded
to declare, and the key is the one that is known of the object at the end
(`Stages.documented`). If all these names are presented by the nodes that are read, then the key is
that of a definition, unless the name is blank or the object is the name of a package
(`exists_def_of_doc`).

Both exceptions are names that make no definition but are documented like others. A sample declares
a blank name under a comment, which then documents the key of no definition
(`exists_doc_without_def`).
-/

namespace SymbolGraph

open Emit KeyStore

section

variable {α : Type} {c : GraphContext} {s t : Emission}

/-! ## Documenting steps -/

/-- What is known of an object in a store is known in every larger one. -/
theorem KeyStore.PartOf.keyOf? {pkg : PackageId} {s t : KeyStore} (h : PartOf pkg s t)
    {obj : ObjectId} {key : DefKey} (hkey : s.keyOf? pkg obj = some key) :
    t.keyOf? pkg obj = some key := by
  obtain ⟨k, hk, rfl⟩ := Option.map_eq_some_iff.mp hkey
  exact Option.map_eq_some_iff.mpr ⟨k, h obj k hk, rfl⟩

/-- A key that a lookup gives is known after it. -/
theorem GraphContext.find?_of_keyOf {obj : ObjectId} {k : KeyedObject}
    (h : c.keyOf obj s = .ok (some k) t) : t.keys.find? c.package.pkg obj = some k := by
  cases keyOf_cases h with
  | known hs => exact hs
  | found hs hk => exact find?_install_self k hs

namespace GraphContext

/-- A text is about the package, or about an object that a name is recorded to declare and whose
key is known, unless it has no key. -/
def Documented (c : GraphContext) (keys : KeyStore) (x : Doc) : Prop :=
  ∀ key, x.key = some key → key = .ofPackage c.unit ∨ ∃ name obj,
    c.package.facts.defs.get? name = some obj ∧ keys.keyOf? c.package.pkg obj = some key

/-- A text stays documented when more keys become known. -/
theorem Documented.mono {keys keys' : KeyStore} {x : Doc} (h : c.Documented keys x)
    (hsub : PartOf c.package.pkg keys keys') : c.Documented keys' x := by
  intro key hkey
  rcases h key hkey with hpackage | ⟨name, obj, hobj, hknown⟩
  · exact .inl hpackage
  · exact .inr ⟨name, obj, hobj, hsub.keyOf? hknown⟩

/-- A step loses no key, and what it documents has a key that is known after it. -/
structure Documents (c : GraphContext) (m : Emit α) : Prop where
  grows : ∀ {s t a}, m s = .ok a t → PartOf c.package.pkg s.keys t.keys
  texts : ∀ {s t a}, m s = .ok a t → ∀ x ∈ t.graph.docs, x ∈ s.graph.docs ∨ c.Documented t.keys x

/-- A step that documents nothing. -/
theorem Documents.of_docs_eq {m : Emit α} (h : MadeOf c Change.ByDocumentation m)
    (hdocs : ∀ {s t a}, m s = .ok a t → t.graph.docs = s.graph.docs) : c.Documents m where
  grows := h.grows_ok
  texts hm _ hx := .inl (hdocs hm ▸ hx)

/-- Questions document nothing, and documenting steps in a row document. -/
theorem composes_documents : Composes (fun m => c.Documents m) where
  pure a := .of_docs_eq (.pure a) fun hm => by
    obtain ⟨-, rfl⟩ := pure_eq_ok_iff.mp hm
    rfl
  ask answer := .of_docs_eq (.ask answer) fun hm => by
    obtain ⟨-, rfl⟩ := ask_eq_ok_iff.mp hm
    rfl
  bind hm hnext := by
    refine ⟨fun h => ?_, fun h x hx => ?_⟩
    · obtain ⟨a, mid, hfirst, hlast⟩ := Emit.bind_eq_ok_iff.mp h
      exact (hm.grows hfirst).trans ((hnext a).grows hlast)
    · obtain ⟨a, mid, hfirst, hlast⟩ := Emit.bind_eq_ok_iff.mp h
      rcases (hnext a).texts hlast x hx with hold | hnew
      · exact (hm.texts hfirst x hold).imp id (·.mono ((hnext a).grows hlast))
      · exact .inr hnew

/-- The two texts of a key are added, and that is all. -/
theorem addDocPair_eq_ok {key : DefKey} {text file : String} {span : Span}
    (h : c.addDocPair key text file span s = .ok () t) :
    t.keys = s.keys ∧ t.graph.docs = s.graph.docs ++
      [⟨some key, c.unit, .html, Comment.toHtml text, file, span⟩,
        ⟨some key, c.unit, .plain, text, file, span⟩] := by
  obtain ⟨_, mid, hhtml, hplain⟩ := Emit.bind_eq_ok_iff.mp h
  cases hhtml
  cases hplain
  exact ⟨rfl, List.append_assoc _ _ _⟩

/-- The two texts of a key that is known, or is that of the package, document it. -/
theorem documents_addDocPair {key : DefKey} {text file : String} {span : Span}
    (h : c.addDocPair key text file span s = .ok () t)
    (hkey : ∀ x : Doc, x.key = some key → c.Documented s.keys x) :
    ∀ x ∈ t.graph.docs, x ∈ s.graph.docs ∨ c.Documented t.keys x := by
  obtain ⟨hkeys, hdocs⟩ := addDocPair_eq_ok h
  intro x hx
  rw [hdocs, List.mem_append] at hx
  rw [hkeys]
  refine hx.imp id fun hx => hkey x ?_
  rcases List.mem_cons.mp hx with rfl | hx
  · rfl
  · rw [List.mem_singleton.mp hx]

/-- What is said about the package is documented by the package's key. -/
theorem documents_documentPackage (files : List NodeId) (d : DocState) :
    c.Documents (c.documentPackage files d) where
  grows := (c.madeOf_documentPackage files d).grows_ok
  texts h := by
    unfold documentPackage at h
    obtain ⟨docs, mid, hask, h⟩ := Emit.bind_eq_ok_iff.mp h
    obtain ⟨-, rfl⟩ := ask_eq_ok_iff.mp hask
    dsimp only at h
    split at h
    · obtain ⟨-, rfl⟩ := pure_eq_ok_iff.mp h
      exact fun x hx => .inl hx
    · obtain ⟨_, mid, hpair, h⟩ := Emit.bind_eq_ok_iff.mp h
      obtain ⟨-, rfl⟩ := pure_eq_ok_iff.mp h
      refine documents_addDocPair hpair fun x hx key hkey => .inl ?_
      rw [hx] at hkey
      exact (Option.some.inj hkey).symm

/-- What documenting a name comes to: nothing is recorded for the name, or its object has been
looked at, or its key is looked up: there is none, it is documented already, or the two texts are
added. -/
inductive NameStep (c : GraphContext) (g : CommentGroup) (text : String) (d : DocState)
    (name : NodeId) (s : Emission) : DocState → Emission → Prop
  | unrecorded : c.package.facts.defs.get? name = none → NameStep c g text d name s d s
  | again {obj : ObjectId} : c.package.facts.defs.get? name = some obj → obj ∈ d.objects →
      NameStep c g text d name s d s
  | keyless {obj : ObjectId} {t : Emission} : c.package.facts.defs.get? name = some obj →
      c.keyOf obj s = .ok none t →
      NameStep c g text d name s { d with objects := obj :: d.objects } t
  | documented {obj : ObjectId} {k : KeyedObject} {t : Emission} :
      c.package.facts.defs.get? name = some obj → c.keyOf obj s = .ok (some k) t →
      k.key.text ∈ d.keys → NameStep c g text d name s { d with objects := obj :: d.objects } t
  | new {obj : ObjectId} {k : KeyedObject} {mid t : Emission} :
      c.package.facts.defs.get? name = some obj → c.keyOf obj s = .ok (some k) mid →
      k.key.text ∉ d.keys →
      c.addDocPair k.key text (c.fileName g.file) g.range.span mid = .ok () t →
      NameStep c g text d name s ⟨d.attached, obj :: d.objects, k.key.text :: d.keys⟩ t

/-- Documenting a name comes to one of the five. -/
theorem documentName_cases {g : CommentGroup} {text : String} {d d' : DocState} {name : NodeId}
    (h : c.documentName g text d name s = .ok d' t) : c.NameStep g text d name s d' t := by
  unfold documentName at h
  cases hobj : c.package.facts.defs.get? name with
  | none =>
    rw [hobj] at h
    obtain ⟨rfl, rfl⟩ := pure_eq_ok_iff.mp h
    exact .unrecorded hobj
  | some obj =>
    rw [hobj] at h
    dsimp only at h
    split at h
    · rename_i hseen
      obtain ⟨rfl, rfl⟩ := pure_eq_ok_iff.mp h
      exact .again hobj hseen
    · obtain ⟨k?, mid, hlookup, h⟩ := Emit.bind_eq_ok_iff.mp h
      cases k? with
      | none =>
        obtain ⟨rfl, rfl⟩ := pure_eq_ok_iff.mp h
        exact .keyless hobj hlookup
      | some k =>
        dsimp only at h
        split at h
        · rename_i htaken
          obtain ⟨rfl, rfl⟩ := pure_eq_ok_iff.mp h
          exact .documented hobj hlookup htaken
        · rename_i hnew
          obtain ⟨_, last, hpair, h⟩ := Emit.bind_eq_ok_iff.mp h
          obtain ⟨rfl, rfl⟩ := pure_eq_ok_iff.mp h
          exact .new hobj hlookup hnew hpair

/-- Looking up a key documents nothing. -/
theorem docs_keyOf {obj : ObjectId} {k? : Option KeyedObject} (h : c.keyOf obj s = .ok k? t) :
    t.graph.docs = s.graph.docs := by
  obtain ⟨keys, hend⟩ := c.endState_keyOf obj s
  rw [endState_of_ok h] at hend
  rw [hend]
  rfl

/-- What is said about a name is documented by the key of the object that it declares. -/
theorem documents_documentName (g : CommentGroup) (text : String) (d : DocState) (name : NodeId) :
    c.Documents (c.documentName g text d name) where
  grows := (c.madeOf_documentName g text d name).grows_ok
  texts {s t _} h := by
    cases documentName_cases h with
    | unrecorded _ => exact fun x hx => .inl hx
    | again _ _ => exact fun x hx => .inl hx
    | keyless _ hlookup => exact fun x hx => .inl (docs_keyOf hlookup ▸ hx)
    | documented _ hlookup _ => exact fun x hx => .inl (docs_keyOf hlookup ▸ hx)
    | @new obj k mid _ hobj hlookup _ hpair =>
      rw [← docs_keyOf hlookup]
      refine documents_addDocPair hpair fun x hx key hkey => .inr ⟨name, obj, hobj, ?_⟩
      rw [hx] at hkey
      obtain rfl := Option.some.inj hkey
      exact Option.map_eq_some_iff.mpr ⟨k, find?_of_keyOf hlookup, rfl⟩

/-- What belongs to nothing has no key, and so is documented. -/
theorem documents_addFloating (d : DocState) (g : CommentGroup) :
    c.Documents (c.addFloating d g) where
  grows := (c.madeOf_addFloating d g).grows_ok
  texts h := by
    unfold addFloating at h
    split at h
    · obtain ⟨-, rfl⟩ := pure_eq_ok_iff.mp h
      exact fun x hx => .inl hx
    · cases h
      intro x hx
      refine (List.mem_append.mp hx).imp id fun hx key hkey => ?_
      rw [List.mem_singleton.mp hx] at hkey
      cases hkey

/-- All that documentation adds is documented. -/
theorem documents_document : c.Documents c.document :=
  composes_documents.document documents_documentPackage documents_documentName
    documents_addFloating

end GraphContext

/-! ## Runs -/

/-- Steps that declare or use add no documentation. -/
theorem MadeOf.keeps_docs {m : Emit α}
    (h : MadeOf c (fun change => change.ByDeclaration ∨ change.ByUse) m) {a : α}
    (hm : m s = .ok a t) : t.graph.docs = s.graph.docs := by
  have hkeeps := h.keeps (fun s => s.graph.docs) (fun _ _ => rfl)
    (fun change hchange s => by
      cases change with
      | text => exact hchange.elim False.elim False.elim
      | _ => rfl) s
  rw [endState_of_ok hm] at hkeeps
  exact hkeeps

/-- The texts of a run with a key are about the package or an object that is recorded. -/
theorem Stages.documented {includeDocs : Bool} {keys : KeyStore}
    {packaged visited last : Emission} (h : Stages c includeDocs keys packaged visited last) :
    ∀ x ∈ last.graph.docs, c.Documented last.keys x := by
  have hpackaged : packaged.graph.docs = [] :=
    (c.madeOf_emitPackage.mono fun _ => .inl).keeps_docs h.emitPackage
  have hvisited : visited.graph.docs = [] :=
    ((c.madeOf_visitAll _).keeps_docs h.visitAll).trans hpackaged
  have hlast : c.Documents (if includeDocs && visited.error.isNone then c.document
      else pure ()) := by
    split
    · exact GraphContext.documents_document
    · exact GraphContext.composes_documents.pure ()
  intro x hx
  rcases hlast.texts h.document x hx with hold | hnew
  · rw [hvisited] at hold
    cases hold
  · exact hnew

end

section

variable {p : Program} {k : CheckedPackage} {options : GraphOptions} {keys keys' : KeyStore}
  {g : PackageGraph} {nodes : List NodeId}

/-- **What is documented is defined.** If all that is recorded to declare something are identifiers
that the nodes that are read present, then a text with a key has that of a definition, unless it
documents a blank name or the name of a package. -/
theorem exists_def_of_doc (h : p.graph k options keys = (.ok (.ok g), keys'))
    (hreads : p.tree.Reads k.files nodes)
    (hpresented : ∀ name obj, k.facts.defs.get? name = some obj →
      (∃ text, p.tree.identName? name = .ok (some text)) ∧
        ∃ node ∈ nodes, name ∈ p.presented node) :
    ∀ d ∈ g.docs, ∀ key, d.key = some key → (∃ x ∈ g.defs, x.key = key) ∨
      ∃ name obj, k.facts.defs.get? name = some obj ∧ keys'.keyOf? k.pkg obj = some key ∧
        (p.tree.identName? name = .ok (some "_") ∨ p.isPackageName obj = true) := by
  obtain ⟨c, owner, packaged, visited, last, hc, hrun, rfl, rfl⟩ := completes_of_graph_eq_ok h
  obtain ⟨hprogram, hpackage, -, -, -, -⟩ := hc
  subst hprogram hpackage
  intro d hd key hkey
  rcases hrun.stages.documented d hd key hkey with rfl | ⟨name, obj, hobj, hknown⟩
  · -- the package has a definition
    obtain ⟨⟨first, rest, _, hdefs, -, hfirst, -, -⟩, -, -⟩ :=
      hrun.stages.ledger.defs (hrun.stages.error.trans hrun.faultless)
    exact .inl ⟨first, by rw [hdefs]; exact List.mem_cons_self, hfirst⟩
  · obtain ⟨⟨text, htext⟩, node, hnode, hname⟩ := hpresented name obj hobj
    by_cases hblank : text = "_"
    · exact .inr ⟨name, obj, hobj, hknown, .inl (hblank ▸ htext)⟩
    · cases hpackage : c.program.isPackageName obj with
      | true => exact .inr ⟨name, obj, hobj, hknown, .inr hpackage⟩
      | false =>
        refine .inl (exists_def_of_presented h hreads hnode hname ?_ hknown)
        unfold Program.declaredObject?
        rw [htext]
        dsimp only
        rw [if_neg hblank, hobj, Option.filter_some, hpackage]
        rfl

end

/-! ### A comment on a blank name -/

namespace BlankName

/-- The comment of the declaration. -/
def comment : CommentGroup := ⟨⟨0⟩, .upTo 2, ["// d"]⟩

/-- A file that declares the variables `x` and `_` under one comment. -/
def program : Program where
  sources := ⟨#[⟨"p.go", ""⟩]⟩
  tree := ⟨#[⟨.ident "p", ⟨0⟩, .upTo 1, some ⟨5⟩⟩, ⟨.ident "x", ⟨0⟩, .upTo 3, some ⟨3⟩⟩,
    ⟨.ident "_", ⟨0⟩, .upTo 4, some ⟨3⟩⟩, ⟨.valueSpec [⟨1⟩, ⟨2⟩] none [] none none, ⟨0⟩, .upTo 5,
      some ⟨4⟩⟩, ⟨.genDecl .varDecl [⟨3⟩] (some comment), ⟨0⟩, .upTo 6, some ⟨5⟩⟩,
    ⟨.file ⟨0⟩ [⟨4⟩] none [comment], ⟨0⟩, .upTo 6, none⟩]⟩
  objects := #[⟨"x", .var, some ⟨0⟩, some ⟨0⟩, some ⟨⟨0⟩, 1⟩, none⟩,
    ⟨"_", .var, some ⟨0⟩, none, some ⟨⟨0⟩, 2⟩, none⟩]
  types := #[]
  scopes := #[⟨none, [⟨1⟩], [("x", ⟨0⟩)]⟩, ⟨some ⟨0⟩, [], []⟩]
  packages := #[⟨"p", "p", ⟨0⟩⟩]

/-- The package as it was checked. -/
def package : CheckedPackage where
  pkg := ⟨0⟩
  files := [⟨5⟩]
  facts := { Facts.empty with
    defs := ⟨[(⟨1⟩, ⟨0⟩), (⟨2⟩, ⟨1⟩)]⟩
    scopes := ⟨[(⟨5⟩, ⟨1⟩)]⟩ }

/-- The nodes in the order in which they are read. -/
def nodes : List NodeId := [⟨5⟩, ⟨0⟩, ⟨4⟩, ⟨3⟩, ⟨1⟩, ⟨2⟩]

/-- The file is read in this order. -/
theorem reads : program.tree.Reads package.files nodes := reads_graphWalk rfl

/-- Both names are identifiers that the specification presents. -/
theorem presented : ∀ name obj, package.facts.defs.get? name = some obj →
    (∃ text, program.tree.identName? name = .ok (some text)) ∧
      ∃ node ∈ nodes, name ∈ program.presented node := by
  intro name obj hobj
  have hmem : (name, obj) ∈ [((⟨1⟩, ⟨0⟩) : NodeId × ObjectId), (⟨2⟩, ⟨1⟩)] :=
    Table.mem_of_get? hobj
  rcases List.mem_cons.mp hmem with heq | hmem
  · cases heq
    exact ⟨⟨"x", rfl⟩, ⟨3⟩, by decide, by decide⟩
  · cases List.mem_singleton.mp hmem
    exact ⟨⟨"_", rfl⟩, ⟨3⟩, by decide, by decide⟩

/-- The package is graphed, with definitions for itself and the variable `x`, and two texts for
each of the names. -/
theorem graph_eq_ok : ∃ g keys, program.graph package .standard .empty = (.ok (.ok g), keys) ∧
    g.defs.map (fun x => x.key.path) = [[], ["x"]] ∧
    g.docs.map (fun d => d.key) = [some ⟨"p", ["x"]⟩, some ⟨"p", ["x"]⟩, some ⟨"p", ["_$p2"]⟩,
      some ⟨"p", ["_$p2"]⟩] := by
  have hrun : (program.graph package .standard .empty).1.graph?.map
      (fun g => (g.defs.map (fun x => x.key.path), g.docs.map (fun d => d.key))) =
      some ([[], ["x"]], [some ⟨"p", ["x"]⟩, some ⟨"p", ["x"]⟩, some ⟨"p", ["_$p2"]⟩,
        some ⟨"p", ["_$p2"]⟩]) := by decide +kernel
  obtain ⟨g, keys, hgraph, hparts⟩ := exists_graph_eq_of_graph? hrun
  exact ⟨g, keys, hgraph, Prod.mk.inj hparts⟩

end BlankName

/-- In the sample every documented key is that of a definition or of the blank name. -/
theorem exists_def_of_doc_blankName :
    ∃ g keys, BlankName.program.graph BlankName.package .standard .empty = (.ok (.ok g), keys) ∧
      BlankName.program.tree.Reads BlankName.package.files BlankName.nodes ∧
      (∀ name obj, BlankName.package.facts.defs.get? name = some obj →
        (∃ text, BlankName.program.tree.identName? name = .ok (some text)) ∧
          ∃ node ∈ BlankName.nodes, name ∈ BlankName.program.presented node) ∧
      ∀ d ∈ g.docs, ∀ key, d.key = some key → (∃ x ∈ g.defs, x.key = key) ∨
        ∃ name obj, BlankName.package.facts.defs.get? name = some obj ∧
          keys.keyOf? BlankName.package.pkg obj = some key ∧
          (BlankName.program.tree.identName? name = .ok (some "_") ∨
            BlankName.program.isPackageName obj = true) := by
  obtain ⟨g, keys, hgraph, -, -⟩ := BlankName.graph_eq_ok
  exact ⟨g, keys, hgraph, BlankName.reads, BlankName.presented,
    exists_def_of_doc hgraph BlankName.reads BlankName.presented⟩

/-- The blank name is documented under a key that no definition has. -/
theorem exists_doc_without_def :
    BlankName.program.tree.Reads BlankName.package.files BlankName.nodes ∧
    (∀ name obj, BlankName.package.facts.defs.get? name = some obj →
      (∃ text, BlankName.program.tree.identName? name = .ok (some text)) ∧
        ∃ node ∈ BlankName.nodes, name ∈ BlankName.program.presented node) ∧
    ∃ g keys, BlankName.program.graph BlankName.package .standard .empty = (.ok (.ok g), keys) ∧
      ∃ d ∈ g.docs, ∃ key, d.key = some key ∧ ∀ x ∈ g.defs, x.key ≠ key := by
  obtain ⟨g, keys, hgraph, hdefs, hdocs⟩ := BlankName.graph_eq_ok
  refine ⟨BlankName.reads, BlankName.presented, g, keys, hgraph, ?_⟩
  have hmem : some ⟨"p", ["_$p2"]⟩ ∈ g.docs.map (fun d => d.key) := by
    rw [hdocs]
    decide
  obtain ⟨d, hd, hkey⟩ := List.mem_map.mp hmem
  refine ⟨d, hd, _, hkey, fun x hx hsame => ?_⟩
  have hpath : x.key.path ∈ g.defs.map (fun x => x.key.path) := List.mem_map.mpr ⟨x, hx, rfl⟩
  rw [hdefs, hsame] at hpath
  exact absurd hpath (by decide)

end SymbolGraph
