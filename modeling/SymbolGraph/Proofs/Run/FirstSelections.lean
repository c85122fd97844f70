import SymbolGraph.Proofs.Program.Promotion
import SymbolGraph.Proofs.Run.FileOrder
import SymbolGraph.Proofs.Run.Ledger

/-!
# The first selection of a field

A field of another package is keyed when it is met for the first time, and what was selected last
decides its key. Here the first time is in a selector (`Program.FirstThrough`): then the type that
declares the field for this selection gives its name to the key.

What a visit does is told by three facts. An object whose key becomes known is declared or mentioned
by the node (`known_of_visit`); the type through which an object was selected stays unless the node
is a selector that selects the object (`selected_of_visit`); and the first mention of a field keys
it by what is selected then (`objectKey?_of_first_mention`). They are put together for visits one
after the other (`GraphContext.Visits`).
-/

namespace SymbolGraph

open Emit KeyStore

/-! ## What a visit looks up -/

/-- A field is no package name. -/
theorem Program.IsForeignField.isPackageName {p : Program} {k : CheckedPackage} {obj : ObjectId}
    (h : p.IsForeignField k obj) : p.isPackageName obj = false := by
  obtain ⟨o, _, _, ho, hkind, -, -⟩ := h
  rw [Program.isPackageName, ho]
  dsimp only
  rw [hkind]
  rfl

section Visit

variable {c : GraphContext} {s t : Emission} {obj : ObjectId}

namespace GraphContext

/-- An object whose key becomes known by the uses of a node is mentioned there. -/
theorem known_of_visitUses {node : NodeId} {n : Node} {k : KeyedObject}
    (h : c.visitUses node n.kind s = .ok () t) (hn : c.program.tree.node node = .ok n)
    (hk : t.keys.find? c.package.pkg obj = some k) :
    s.keys.find? c.package.pkg obj = some k ∨
      (∃ m, c.program.mention? c.package s.importSpans node = some m ∧
        m.named.object? = some obj) ∧ c.objectKey? s.selected obj = .ok (some k) := by
  by_cases hskip : ∃ name, n.kind = .ident name ∧
      (name = "_" ∨ (n.file, n.range.span) ∈ s.importSpans)
  · obtain ⟨name, hkind, hskip⟩ := hskip
    rw [hkind] at h
    rw [← eq_of_visitUses_ident h hn (hskip.imp_right .inr)] at hk
    exact .inl hk
  by_cases hselector : ∃ operand member, n.kind = .selectorExpr operand member
  · obtain ⟨operand, member, hkind⟩ := hselector
    rw [hkind] at h
    rcases visitUses_selectorExpr_cases h with ⟨-, rfl⟩ | ⟨_, _, -, -, rfl⟩
    · exact .inl hk
    · exact .inl hk
  · have hlooks : c.Looks (fun obj => ∃ m,
        c.program.mention? c.package s.importSpans node = some m ∧ m.named.object? = some obj)
        (c.visitUses node n.kind) := by
      refine looks_visitUses (fun operand member hkind => hselector ⟨operand, member, hkind⟩)
        (fun obj hkind hobj => ?_) (fun obj hkind hobj => ?_)
      · obtain ⟨name, path, doc, comment, hkind⟩ := hkind
        exact ⟨⟨n.file, n.range, .imported obj⟩,
          by simp only [Program.mention?, hn, hkind, hobj, Option.map_some], rfl⟩
      · obtain ⟨name, hkind⟩ := hkind
        have hpassed : ¬ (name = "_" ∨ (n.file, n.range.span) ∈ s.importSpans) :=
          fun hpassed => hskip ⟨name, hkind, hpassed⟩
        exact ⟨⟨n.file, n.range,
            .object obj (c.package.facts.isDef node && !c.program.isPackageName obj)⟩,
          by simp only [Program.mention?, hn, hkind, hobj, if_neg hpassed, Option.map_some], rfl⟩
    exact hlooks.keys h obj k hk

/-- An object whose key becomes known by a visit is declared or mentioned by its node. -/
theorem known_of_visit {v : Visit} {k : KeyedObject} (h : c.visit v s = .ok () t)
    (hobj : c.program.isPackageName obj = false)
    (hk : t.keys.find? c.package.pkg obj = some k) :
    s.keys.find? c.package.pkg obj = some k ∨
      ((∃ d ∈ c.program.declarations c.package [v.node], d.obj = obj) ∨
        ∃ m, c.program.mention? c.package s.importSpans v.node = some m ∧
          m.named.object? = some obj) ∧ c.objectKey? s.selected obj = .ok (some k) := by
  obtain ⟨n, names, mid, hn, hnames, hdeclare, huses⟩ := visit_cases h
  have hlooks : c.Looks (fun other => ∃ name ∈ names, c.declared? name = .ok (some other))
      (each (c.declare v.structName v.node) names) :=
    composes_looks.each_of_mem fun name hname =>
      looks_declare_of_declared? fun other hdeclared => ⟨name, hname, hdeclared⟩
  have hspans := ((MadeOf.each (c.madeOf_declare v.structName v.node) names).keeps_refs hdeclare).2
  rcases known_of_visitUses huses hn hk with hmid | ⟨hmention, hfound⟩
  · rcases hlooks.keys hdeclare obj k hmid with hknown | ⟨⟨name, hname, hdeclared⟩, hfound⟩
    · exact .inl hknown
    · have hpresented := Program.presented_eq (SyntaxTree.kind_of_node hn) hnames
      have hobject := declaredObject?_of_declared? hdeclared
      rw [Option.filter_some, hobj, Bool.not_false, if_pos rfl] at hobject
      refine .inr ⟨.inl ⟨⟨v.node, name, obj⟩, ?_, rfl⟩, hfound⟩
      refine List.mem_flatMap.mpr ⟨v.node, List.mem_singleton_self _, ?_⟩
      rw [hpresented]
      exact List.mem_filterMap.mpr ⟨name, hname, by rw [Program.declaration?, hobject]; rfl⟩
  · rw [hspans] at hmention
    rw [hlooks.selected hdeclare] at hfound
    exact .inr ⟨.inr hmention, hfound⟩

/-- The first mention of a field of another package keys it by what is selected then. -/
theorem objectKey?_of_first_mention {v : Visit} {m : Mention} (h : c.visit v s = .ok () t)
    (hforeign : c.program.IsForeignField c.package obj)
    (hs : s.keys.find? c.package.pkg obj = none)
    (hm : c.program.mention? c.package s.importSpans v.node = some m)
    (hobj : m.named.object? = some obj) :
    ∃ k, t.keys.find? c.package.pkg obj = some k ∧ c.objectKey? s.selected obj = .ok (some k) := by
  have htells := (visit_eq_ok h (PartOf.refl _ s.keys) (PartOf.refl _ t.keys)
    ((c.madeOf_visit v).found_ok h fun _ _ hk => .inl hk)).tells
  rw [hm] at htells
  obtain ⟨k, hk⟩ : ∃ k, t.keys.find? c.package.pkg obj = some k := by
    rcases htells.lookedUp m (List.mem_singleton_self m) obj hobj with hsome | ⟨_, hwithout⟩
    · exact Option.isSome_iff_exists.mp (by simpa [KeyStore.keyOf?] using hsome)
    · exact absurd hwithout (objectKey?_ne_none_of_foreign hforeign)
  rcases known_of_visit h hforeign.isPackageName hk with hknown | ⟨-, hlooked⟩
  · rw [hs] at hknown
    cases hknown
  · exact ⟨k, hk, hlooked⟩

/-- Only a selector that selects an object changes the type through which it was selected. -/
theorem selected_of_visit {v : Visit} (h : c.visit v s = .ok () t)
    (hselects : ¬ c.program.SelectedBy c.package v.node obj) :
    t.selected.get? obj = s.selected.get? obj := by
  obtain ⟨n, names, mid, hn, -, hdeclare, huses⟩ := visit_cases h
  have hlooks : c.Looks (fun _ => True) (each (c.declare v.structName v.node) names) :=
    composes_looks.each (fun _ => looks_declare fun _ _ => trivial) names
  rw [← hlooks.selected hdeclare]
  by_cases hselector : ∃ operand member, n.kind = .selectorExpr operand member
  · obtain ⟨operand, member, hkind⟩ := hselector
    rw [hkind] at huses
    rcases visitUses_selectorExpr_cases huses with ⟨-, rfl⟩ | ⟨selection, type, hselection, -, rfl⟩
    · rfl
    · refine Table.get?_insert_of_ne _ (fun hobj => hselects ?_) _
      exact ⟨operand, member, selection, hkind ▸ SyntaxTree.kind_of_node hn, hselection, hobj⟩
  · have huseslooks : c.Looks (fun _ => True) (c.visitUses v.node n.kind) :=
      looks_visitUses (fun operand member hkind => hselector ⟨operand, member, hkind⟩)
        (fun _ _ _ => trivial) fun _ _ _ => trivial
    rw [huseslooks.selected huses]

/-- A selector leaves behind the type that declares the object that it selects. -/
theorem selected_of_selector {v : Visit} {operand member : NodeId} {selection : Selection}
    (h : c.visit v s = .ok () t)
    (hkind : c.program.tree.kind v.node = .ok (.selectorExpr operand member))
    (hselection : c.package.facts.selections.get? v.node = some selection) :
    ∃ type, c.program.declaringType selection = .ok type ∧
      t.selected.get? selection.obj = some type := by
  obtain ⟨n, names, mid, hn, -, -, huses⟩ := visit_cases h
  rw [SyntaxTree.kind_of_node hn] at hkind
  rw [Except.ok.inj hkind] at huses
  rcases visitUses_selectorExpr_cases huses with ⟨hnone, -⟩ | ⟨_, type, hsome, htype, rfl⟩
  · rw [hselection] at hnone
    cases hnone
  · rw [hselection] at hsome
    cases hsome
    exact ⟨type, htype, Table.get?_insert_self _ _ _⟩

/-- A visit adds the place of an import without a name, if its node is one. -/
theorem importSpans_of_visit {v : Visit} (h : c.visit v s = .ok () t) :
    t.importSpans = ((c.program.mention? c.package s.importSpans v.node).bind
      Mention.importPlace?).toList ++ s.importSpans :=
  (visit_eq_ok h (PartOf.refl _ s.keys) (PartOf.refl _ t.keys)
    ((c.madeOf_visit v).found_ok h fun _ _ hk => .inl hk)).imports

end GraphContext

end Visit

/-! ## Visits one after the other -/

section Visits

variable {c : GraphContext} {s t : Emission} {obj : ObjectId} {visits front back : List Visit}

/-- Visits are made one after the other, none of which ends in a fault. -/
inductive GraphContext.Visits (c : GraphContext) : List Visit → Emission → Emission → Prop
  | nil (s : Emission) : Visits c [] s s
  | cons {v : Visit} {rest : List Visit} {s mid t : Emission} : c.visit v s = .ok () mid →
      Visits c rest mid t → Visits c (v :: rest) s t

namespace GraphContext

/-- Visits that end without an error have all been made. -/
theorem visits_of_visitAll (h : c.visitAll visits s = .ok () t) (herror : t.error = none) :
    c.Visits visits s t := by
  induction visits generalizing s with
  | nil =>
    obtain ⟨-, rfl⟩ := pure_eq_ok_iff.mp h
    exact .nil s
  | cons v rest ih =>
    obtain ⟨mid, hvisit, hrest⟩ := visitAll_cons_cases h herror
    exact .cons hvisit (ih hrest)

namespace Visits

/-- Visits of two lists in a row are those of the first list and then those of the second. -/
theorem append_cases (h : c.Visits (front ++ back) s t) :
    ∃ mid, c.Visits front s mid ∧ c.Visits back mid t := by
  induction front generalizing s with
  | nil => exact ⟨s, .nil s, h⟩
  | cons v rest ih =>
    cases h with
    | cons hvisit hrest =>
      obtain ⟨mid, hfront, hback⟩ := ih hrest
      exact ⟨mid, .cons hvisit hfront, hback⟩

/-- Visits lose no key. -/
theorem grows (h : c.Visits visits s t) : PartOf c.package.pkg s.keys t.keys := by
  induction h with
  | nil s => exact PartOf.refl _ _
  | cons hvisit _ ih => exact ((c.madeOf_visit _).grows_ok hvisit).trans ih

/-- The places of imports without a name that have been read are known. -/
theorem importSpans (h : c.Visits visits s t) :
    t.importSpans = ((c.program.mentionsFrom c.package s.importSpans
      (visits.map Visit.node)).filterMap Mention.importPlace?).reverse ++ s.importSpans := by
  induction h with
  | nil s => rfl
  | @cons v rest s mid t hvisit _ ih =>
    rw [importSpans_of_visit hvisit] at ih
    rw [ih, List.map_cons, mentionsFrom_cons, List.filterMap_append, List.reverse_append,
      List.append_assoc]
    congr 1
    cases c.program.mention? c.package s.importSpans v.node with
    | none => rfl
    | some m => cases hplace : m.importPlace? <;> simp [hplace]

/-- What is mentioned once another node is visited, and was not before, that node mentions. -/
theorem mention?_of_mem_concat (h : c.Visits visits s t) (hs : s.importSpans = []) {node : NodeId}
    {m : Mention} (hm : m ∈ c.program.mentions c.package (visits.map Visit.node ++ [node]))
    (hnew : m ∉ c.program.mentions c.package (visits.map Visit.node)) :
    c.program.mention? c.package t.importSpans node = some m := by
  rw [Program.mentions, Program.mentionsFrom_append, ← hs, ← h.importSpans] at hm
  rcases List.mem_append.mp hm with hm | hm
  · rw [hs] at hm
    exact absurd hm hnew
  · rw [mentionsFrom_cons, Program.mentionsFrom, List.append_nil] at hm
    exact Option.mem_toList.mp hm

/-- An object that is neither declared nor mentioned stays unknown. -/
theorem unknown (h : c.Visits visits s t) (hobj : c.program.isPackageName obj = false)
    (hdeclared : ∀ d ∈ c.program.declarations c.package (visits.map Visit.node), d.obj ≠ obj)
    (hmentioned : ∀ m ∈ c.program.mentionsFrom c.package s.importSpans (visits.map Visit.node),
      m.named.object? ≠ some obj)
    (hs : s.keys.find? c.package.pkg obj = none) : t.keys.find? c.package.pkg obj = none := by
  induction h with
  | nil s => exact hs
  | @cons v rest s mid t hvisit _ ih =>
    rw [List.map_cons, mentionsFrom_cons, ← importSpans_of_visit hvisit] at hmentioned
    have hsplit : c.program.declarations c.package ((v :: rest).map Visit.node) =
        c.program.declarations c.package [v.node] ++
          c.program.declarations c.package (rest.map Visit.node) := by
      simp [Program.declarations]
    rw [hsplit] at hdeclared
    refine ih (fun d hd => hdeclared d (List.mem_append_right _ hd))
      (fun m hm => hmentioned m (List.mem_append_right _ hm)) ?_
    cases hmid : mid.keys.find? c.package.pkg obj with
    | none => rfl
    | some k =>
      rcases known_of_visit hvisit hobj hmid with hknown | ⟨⟨d, hd, hsame⟩ | ⟨m, hm, hsame⟩, -⟩
      · rw [hs] at hknown
        cases hknown
      · exact absurd hsame (hdeclared d (List.mem_append_left _ hd))
      · refine absurd hsame (hmentioned m (List.mem_append_left _ ?_))
        rw [hm]
        exact List.mem_singleton_self _

/-- Without a selector that selects an object the type stays through which it was selected. -/
theorem selected (h : c.Visits visits s t)
    (hselects : ∀ node ∈ visits.map Visit.node, ¬ c.program.SelectedBy c.package node obj) :
    t.selected.get? obj = s.selected.get? obj := by
  induction h with
  | nil s => rfl
  | @cons v rest s mid t hvisit _ ih =>
    rw [ih fun node hnode => hselects node (List.mem_cons_of_mem _ hnode),
      selected_of_visit hvisit (hselects v.node List.mem_cons_self)]

end Visits

end GraphContext

end Visits

/-! ## The first selection -/

section First

variable {p : Program} {k : CheckedPackage} {nodes : List NodeId} {selection : Selection}

/-- The field of a selection is met for the first time as the member of a selector with this
selection, and no other selector of the field is read before the member is. -/
inductive Program.FirstThrough (p : Program) (k : CheckedPackage) (nodes : List NodeId)
    (selection : Selection) : Prop
  | intro {before between after : List NodeId} {selector operand member : NodeId} {m : Mention} :
      nodes = before ++ selector :: between ++ member :: after →
      p.tree.kind selector = .ok (.selectorExpr operand member) →
      k.facts.selections.get? selector = some selection →
      (∀ node ∈ between, ¬ p.SelectedBy k node selection.obj) →
      (∀ d ∈ p.declarations k (before ++ selector :: between), d.obj ≠ selection.obj) →
      (∀ m ∈ p.mentions k (before ++ selector :: between), m.named.object? ≠ some selection.obj) →
      m ∈ p.mentions k (before ++ selector :: between ++ [member]) →
      m.named.object? = some selection.obj → FirstThrough p k nodes selection

/-- A field of another package that is met for the first time in a selector is keyed behind the name
of the type that declares it for this selection. -/
theorem GraphContext.Visits.key_of_firstThrough {c : GraphContext} {visits : List Visit}
    {s t : Emission} (h : c.Visits visits s t) (hspans : s.importSpans = [])
    (hunknown : s.keys.find? c.package.pkg selection.obj = none)
    (hforeign : c.program.IsForeignField c.package selection.obj)
    (hfirst : c.program.FirstThrough c.package (visits.map Visit.node) selection) :
    ∃ type owner? found, c.program.declaringType selection = .ok type ∧
      typeName? c.program type = .ok owner? ∧
      t.keys.find? c.package.pkg selection.obj = some found ∧
      c.program.FieldKey c.package selection.obj owner? found.key := by
  obtain @⟨_, _, _, _, _, _, m, hnodes, hkind, hselection, hbetween, hdeclared, hmentioned, hm,
    hobj⟩ := hfirst
  -- the run falls into the visits before the selector, between it and the member, and after
  obtain ⟨early, late, rfl, hearly, hlate⟩ := List.map_eq_append_iff.mp hnodes
  obtain ⟨first, others, rfl, rfl, hothers⟩ := List.map_eq_append_iff.mp hearly
  obtain ⟨v, middle, rfl, rfl, rfl⟩ := List.map_eq_cons_iff.mp hothers
  obtain ⟨w, last, rfl, rfl, -⟩ := List.map_eq_cons_iff.mp hlate
  obtain ⟨mid, hbefore, hafter⟩ := h.append_cases
  obtain ⟨_, -, hselecting⟩ := hbefore.append_cases
  cases hselecting with | @cons _ _ _ chosen _ hselector hmiddle => ?_
  cases hafter with | @cons _ _ _ keyed _ hmember hlast => ?_
  rw [← List.map_cons, ← List.map_append] at hdeclared hmentioned hm
  -- what has been selected when the member is read
  obtain ⟨type, htype, hchosen⟩ := selected_of_selector hselector hkind hselection
  have hselected : mid.selected.get? selection.obj = some type :=
    (hmiddle.selected hbetween).trans hchosen
  -- the member is the first to mention the field, and makes its key known
  have hnone : mid.keys.find? c.package.pkg selection.obj = none :=
    hbefore.unknown hforeign.isPackageName hdeclared (by rwa [hspans]) hunknown
  have hmention : c.program.mention? c.package mid.importSpans w.node = some m :=
    hbefore.mention?_of_mem_concat hspans hm fun hold => hmentioned m hold hobj
  obtain ⟨found, hfound, hlooked⟩ :=
    objectKey?_of_first_mention hmember hforeign hnone hmention hobj
  obtain ⟨owner?, hkey, howner⟩ := fieldKey_of_objectKey? hlooked hforeign
  rw [hselected] at howner
  exact ⟨type, owner?, found, htype, howner, hlast.grows _ _ hfound, hkey⟩

/-- A run that ends in a graph keys such a field in this way. -/
theorem Completes.key_of_firstThrough {c : GraphContext} {includeDocs : Bool} {keys : KeyStore}
    {packaged visited last : Emission} (h : Completes c includeDocs keys packaged visited last)
    (hunknown : keys.find? c.package.pkg selection.obj = none)
    (hforeign : c.program.IsForeignField c.package selection.obj)
    (hreads : c.program.tree.Reads c.package.files nodes)
    (hfirst : c.program.FirstThrough c.package nodes selection) :
    ∃ type owner? key, c.program.declaringType selection = .ok type ∧
      GraphContext.typeName? c.program type = .ok owner? ∧
      last.keys.keyOf? c.package.pkg selection.obj = some key ∧
      c.program.FieldKey c.package selection.obj owner? key := by
  have hvisits := GraphContext.visits_of_visitAll h.stages.visitAll h.faultless
  obtain ⟨-, hspans⟩ := c.madeOf_emitPackage.keeps_refs h.stages.emitPackage
  have hpackage : c.Looks (fun _ => False) c.emitPackage := GraphContext.looks_emitPackage
  have hnone : packaged.keys.find? c.package.pkg selection.obj = none := by
    by_contra hsome
    obtain ⟨found, hfound⟩ := Option.ne_none_iff_exists'.mp hsome
    rcases hpackage.keys h.stages.emitPackage _ _ hfound with hknown | ⟨hfalse, -⟩
    · rw [Emission.start, hunknown] at hknown
      cases hknown
    · exact hfalse
  rw [hreads.unique (reads_graphWalk h.uncut)] at hfirst
  obtain ⟨type, owner?, found, htype, howner, hfound, hkey⟩ :=
    hvisits.key_of_firstThrough hspans hnone hforeign hfirst
  refine ⟨type, owner?, found.key, htype, howner, ?_, hkey⟩
  rw [KeyStore.keyOf?, h.stages.found.2.2 _ _ hfound]
  rfl

/-- **A promoted field is keyed behind the type that declares it.** If the index path of a selection
leads from the selection's type to its field, the declaring type has the field at the last place of
the path, and is the selection's own type if the path has one index. If that is a named type or a
pointer to one, a package that meets a field of another package for the first time through this
selection refers to it behind the name of the type; the file comes first if the other package is
called `main`. -/
theorem Program.declaringType_of_leads {s : Selection} (h : p.Leads s.recv s.index s.obj) :
    ∃ type last, p.declaringType s = .ok type ∧ s.index.getLast? = some last ∧
      p.FieldAt type last s.obj ∧ (s.index.length = 1 → type = s.recv) ∧
      ∀ {named : TypeId} {name : ObjectId} {under : Option TypeId} {methods : List ObjectId}
        {t o : Object} {embedded : Bool} {pkg : PackageId} {owner : Package} {k : CheckedPackage}
        {options : GraphOptions} {keys keys' : KeyStore} {g : PackageGraph} {nodes : List NodeId},
        p.type named = .ok (.named name under methods) → p.object name = .ok t →
        (type = named ∨ p.type type = .ok (.pointer named)) →
        p.object s.obj = .ok o → o.kind = .field embedded → o.pkg = some pkg → pkg ≠ k.pkg →
        p.package pkg = .ok owner → p.graph k options keys = (.ok (.ok g), keys') →
        keys.find? k.pkg s.obj = none → p.tree.Reads k.files nodes → p.FirstThrough k nodes s →
        ∃ key, key = GraphContext.pathKey p owner o [t.name, o.name] ∧
          keys'.keyOf? k.pkg s.obj = some key ∧
          ∀ m ∈ p.mentions k nodes, m.named.object? = some s.obj →
            ∃ r ∈ g.refs, r.file = p.sources.name m.file ∧ r.span = m.range.span ∧
              r.target = key := by
  obtain ⟨type, last, htype, hlast, hfield⟩ := h.exists_declaringType
  refine ⟨type, last, htype, hlast, hfield, fun hlength => ?_, ?_⟩
  · rw [declaringType_of_length_le (by omega)] at htype
    exact (Except.ok.inj htype).symm
  intro named name under methods t o embedded pkg owner k options keys keys' g nodes hnamed ht
    hpointer ho hkind hpkg hother howner hgraph hunknown hreads hfirst
  obtain ⟨c, self, packaged, visited, last, hc, hrun, rfl, rfl⟩ := completes_of_graph_eq_ok hgraph
  obtain ⟨hprogram, hpackage, -, -, -, -⟩ := hc
  subst hprogram hpackage
  obtain ⟨type', owner?, key, htype', hname, hknown, hkey⟩ := hrun.key_of_firstThrough hunknown
    ⟨o, embedded, pkg, ho, hkind, hpkg, hother⟩ hreads hfirst
  rw [htype] at htype'
  cases htype'
  rw [GraphContext.typeName?_eq_ok hnamed ht hpointer] at hname
  cases hname
  obtain rfl := hkey.unique ⟨o, embedded, pkg, owner, ho, hkind, hpkg, hother, howner, rfl⟩
  refine ⟨_, rfl, hknown, fun m hm hobj => ?_⟩
  have htells := hrun.stages.tells hrun.faultless
  rw [(reads_graphWalk hrun.uncut).unique hreads] at htells
  rw [htells.refs]
  have hmade : m.ref? c.program c.unit (last.keys.keyOf? c.package.pkg) =
      some ⟨c.unit, c.program.sources.name m.file, m.range.span,
        GraphContext.pathKey c.program owner o [t.name, o.name], m.named.isDef⟩ := by
    rw [Mention.ref?, Named.key?_of_object? hobj, hknown]
    rfl
  exact ⟨_, List.mem_append_right _ (List.mem_filterMap.mpr ⟨m, hm, hmade⟩), rfl, rfl, rfl⟩

end First

/-! ### A field of an embedded pointer -/

namespace Promoted

/-- The nodes of a file that declares `var x = q.V.F`. -/
def tree : SyntaxTree := ⟨(FirstUse.selecting 0 0 "x").toArray⟩

/-- A package `q` with a type `T` that has a field `F`, a type `S` that embeds `*T`, and a variable
`V` of type `S`; and another package with the file. The name of `q` is left open. -/
def program (name : String) : Program where
  sources := ⟨#[⟨"p.go", ""⟩, ⟨"q.go", ""⟩]⟩
  tree := tree
  objects := #[⟨"x", .var, some ⟨0⟩, some ⟨0⟩, none, none⟩,
    ⟨"F", .field false, some ⟨1⟩, none, some ⟨⟨1⟩, 26⟩, none⟩,
    ⟨"T", .typeName, some ⟨1⟩, some ⟨2⟩, none, some ⟨0⟩⟩,
    ⟨"T", .field true, some ⟨1⟩, none, none, some ⟨2⟩⟩,
    ⟨"S", .typeName, some ⟨1⟩, some ⟨2⟩, none, some ⟨3⟩⟩,
    ⟨"V", .var, some ⟨1⟩, some ⟨2⟩, none, some ⟨3⟩⟩]
  types := #[.named ⟨2⟩ (some ⟨1⟩) [], .struct [⟨1⟩], .pointer ⟨0⟩, .named ⟨4⟩ (some ⟨4⟩) [],
    .struct [⟨3⟩]]
  scopes := #[⟨none, [⟨1⟩], [("x", ⟨0⟩)]⟩, ⟨some ⟨0⟩, [], []⟩,
    ⟨none, [], [("S", ⟨4⟩), ("T", ⟨2⟩), ("V", ⟨5⟩)]⟩]
  packages := #[⟨"p", "p", ⟨0⟩⟩, ⟨"q", name, ⟨2⟩⟩]

/-- The selection of `F` through the embedded `*T`. -/
def selection : Selection := ⟨.fieldVal, ⟨3⟩, ⟨1⟩, [0, 0], true⟩

/-- The package as it was checked. -/
def package : CheckedPackage where
  pkg := ⟨0⟩
  files := [⟨9⟩]
  facts := { Facts.empty with
    defs := ⟨[(⟨1⟩, ⟨0⟩)]⟩
    uses := ⟨[(⟨3⟩, ⟨5⟩), (⟨5⟩, ⟨1⟩)]⟩
    selections := ⟨[(⟨6⟩, selection)]⟩
    scopes := ⟨[(⟨9⟩, ⟨1⟩)]⟩ }

/-- The nodes of the file, in the order in which they are read. -/
def nodes : List NodeId := [⟨9⟩, ⟨0⟩, ⟨8⟩, ⟨7⟩, ⟨1⟩, ⟨6⟩, ⟨4⟩, ⟨2⟩, ⟨3⟩, ⟨5⟩]

/-- The field is reached through the embedded `*T`. -/
theorem leads (name : String) :
    (program name).Leads selection.recv selection.index selection.obj := by
  have hfirst : (program name).FieldAt ⟨3⟩ 0 ⟨3⟩ := ⟨⟨3⟩, [⟨3⟩], rfl, rfl, rfl⟩
  have hsecond : (program name).FieldAt ⟨2⟩ 0 ⟨1⟩ := ⟨⟨0⟩, [⟨1⟩], rfl, rfl, rfl⟩
  exact .through hfirst rfl rfl (.last hsecond)

/-- The file is read in this order. -/
theorem reads : tree.Reads package.files nodes := by
  have hvisited : (graphWalk tree package.files).visited.map Visit.node = nodes := by
    decide +kernel
  rw [← hvisited]
  exact reads_graphWalk (by decide +kernel)

/-- The field is mentioned once, and not before its selector is read. -/
theorem mentions_eq (name : String) :
    (program name).mentions package nodes = [⟨⟨0⟩, .upTo 1, .package⟩,
      ⟨⟨0⟩, .upTo 2, .object ⟨0⟩ true⟩, ⟨⟨0⟩, .upTo 4, .object ⟨5⟩ false⟩,
      ⟨⟨0⟩, .upTo 6, .object ⟨1⟩ false⟩] := rfl

/-- The selector is the first node that mentions the field. -/
theorem firstThrough (name : String) : (program name).FirstThrough package nodes selection := by
  have hdeclarations : (program name).declarations package nodes.dropLast =
      [⟨⟨7⟩, ⟨1⟩, ⟨0⟩⟩] := rfl
  have hmentions : (program name).mentions package nodes.dropLast =
      [⟨⟨0⟩, .upTo 1, .package⟩, ⟨⟨0⟩, .upTo 2, .object ⟨0⟩ true⟩,
        ⟨⟨0⟩, .upTo 4, .object ⟨5⟩ false⟩] := rfl
  refine @Program.FirstThrough.intro (program name) package nodes selection
    [⟨9⟩, ⟨0⟩, ⟨8⟩, ⟨7⟩, ⟨1⟩] [⟨4⟩, ⟨2⟩, ⟨3⟩] [] ⟨6⟩ ⟨4⟩ ⟨5⟩ ⟨⟨0⟩, .upTo 6, .object ⟨1⟩ false⟩
    rfl rfl rfl ?_ ?_ ?_ ?_ rfl
  · rintro node hnode ⟨_, _, selected, -, hselected, -⟩
    have hnone : ∀ node ∈ ([⟨4⟩, ⟨2⟩, ⟨3⟩] : List NodeId),
        package.facts.selections.get? node = none := by decide
    rw [hnone node hnode] at hselected
    cases hselected
  · show ∀ d ∈ (program name).declarations package nodes.dropLast, _
    rw [hdeclarations]
    decide
  · show ∀ m ∈ (program name).mentions package nodes.dropLast, _
    rw [hmentions]
    decide
  · show _ ∈ (program name).mentions package nodes
    rw [mentions_eq]
    decide

/-- The keys of the references that the package has, if it is graphed. -/
def targets? (name : String) : Option (List DefKey) :=
  ((program name).graph package FirstUse.options .empty).1.graph?.map fun g =>
    g.refs.map Ref.target

end Promoted

/-- The field of `T` that is selected from an `S` is keyed behind `T`. -/
theorem Program.declaringType_of_leads_embedded :
    let p := Promoted.program "q"
    let s := Promoted.selection
    p.Leads s.recv s.index s.obj ∧ p.declaringType s = .ok ⟨2⟩ ∧
      p.type ⟨0⟩ = .ok (.named ⟨2⟩ (some ⟨1⟩) []) ∧ p.type ⟨2⟩ = .ok (.pointer ⟨0⟩) ∧
      ∃ g keys', p.graph Promoted.package FirstUse.options .empty = (.ok (.ok g), keys') ∧
        p.tree.Reads Promoted.package.files Promoted.nodes ∧
        p.FirstThrough Promoted.package Promoted.nodes s ∧
        keys'.keyOf? Promoted.package.pkg s.obj = some ⟨"q", ["T", "F"]⟩ := by
  intro p s
  have hleads := Promoted.leads "q"
  have hreads := Promoted.reads
  have hfirst := Promoted.firstThrough "q"
  obtain ⟨g, keys', hgraph, -⟩ := exists_graph_eq_of_graph?
    (show Promoted.targets? "q" = some [⟨"p", []⟩, ⟨"p", ["x"]⟩, ⟨"q", ["V"]⟩, ⟨"q", ["T", "F"]⟩] by
      decide +kernel)
  obtain ⟨type, last, htype, -, -, -, hkeyed⟩ := declaringType_of_leads hleads
  cases htype
  obtain ⟨key, rfl, hkey, -⟩ := hkeyed (k := Promoted.package) rfl rfl (.inr rfl) rfl rfl rfl
    (by decide) rfl hgraph rfl hreads hfirst
  exact ⟨hleads, rfl, rfl, rfl, g, keys', hgraph, hreads, hfirst, hkey⟩

/-- In a package called `main` the file of the field stands before the type. -/
theorem Program.exists_promoted_key_with_file :
    let p := Promoted.program "main"
    let s := Promoted.selection
    p.Leads s.recv s.index s.obj ∧ p.declaringType s = .ok ⟨2⟩ ∧
      p.type ⟨0⟩ = .ok (.named ⟨2⟩ (some ⟨1⟩) []) ∧ p.type ⟨2⟩ = .ok (.pointer ⟨0⟩) ∧
      ∃ g keys', p.graph Promoted.package FirstUse.options .empty = (.ok (.ok g), keys') ∧
        p.tree.Reads Promoted.package.files Promoted.nodes ∧
        p.FirstThrough Promoted.package Promoted.nodes s ∧
        keys'.keyOf? Promoted.package.pkg s.obj = some ⟨"q", ["q.go", "T", "F"]⟩ ∧
        ∀ r ∈ g.refs, r.target.path ≠ ["T", "F"] := by
  intro p s
  obtain ⟨g, keys', hgraph, htargets⟩ := exists_graph_eq_of_graph?
    (show Promoted.targets? "main" = some [⟨"p", []⟩, ⟨"p", ["x"]⟩, ⟨"q", ["V"]⟩,
      ⟨"q", ["q.go", "T", "F"]⟩] by decide +kernel)
  have hkey : (p.graph Promoted.package FirstUse.options .empty).2.keyOf? Promoted.package.pkg
      s.obj = some ⟨"q", ["q.go", "T", "F"]⟩ := by decide +kernel
  rw [hgraph] at hkey
  refine ⟨Promoted.leads "main", rfl, rfl, rfl, g, keys', hgraph, Promoted.reads,
    Promoted.firstThrough "main", hkey, fun r hr => ?_⟩
  have hpaths : ∀ key ∈ g.refs.map Ref.target, key.path ≠ ["T", "F"] := by
    rw [htargets]
    decide
  exact hpaths _ (List.mem_map.mpr ⟨r, hr, rfl⟩)

end SymbolGraph
