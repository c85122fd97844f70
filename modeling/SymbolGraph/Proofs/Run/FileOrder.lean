import Mathlib.Data.List.Perm.Basic
import SymbolGraph.Proofs.Run.Consistency
import SymbolGraph.Proofs.Run.ForeignFields

/-!
# Files in another order

The files of a package are read in the order of its list. In another order they are read one by
one like before, so that the same is mentioned as often (`perm_mentions`), provided that no
identifier stands where a file has an import without a name (`Program.FilesApart`). The keys of
what is mentioned are the same as well, but for those of fields of other packages, which may have
another one of their owners' names in front. So the references are the same up to these names, and
the same if every such field has one name that it may bear (`refs_of_perm_files`).

A field is keyed when it is first looked up. A sample has a composite literal with a field's name
in one file and a selector for it in the other: whichever comes first decides the key in both
(`exists_not_perm_refs`).
-/

namespace SymbolGraph

open Emit KeyStore

/-! ## What is mentioned -/

namespace Program

variable {p : Program} {k : CheckedPackage} {nodes nodes' : List NodeId}

/-- No identifier of some nodes stands where one of other nodes is an import without a name. -/
def Apart (p : Program) (k : CheckedPackage) (nodes nodes' : List NodeId) : Prop :=
  ∀ name ∈ nodes, ∀ n text, p.tree.node name = .ok n → n.kind = .ident text →
    ¬ p.ImportsAt k nodes' n.file n.range

/-- No identifier that is read below a file stands where another file has an import without a
name. -/
def FilesApart (p : Program) (k : CheckedPackage) : Prop :=
  ∀ blocks, List.Forall₂ (fun file block => p.tree.Reads [file] block) k.files blocks →
    blocks.Pairwise fun a b => p.Apart k a b ∧ p.Apart k b a

/-- Imports at whose places there are no identifiers make no difference to what a node mentions. -/
theorem mention?_append_imports {node : NodeId} {extra : List (FileId × Span)}
    (hextra : ∀ n text, p.tree.node node = .ok n → n.kind = .ident text →
      (n.file, n.range.span) ∉ extra) (imports : List (FileId × Span)) :
    p.mention? k (imports ++ extra) node = p.mention? k imports node := by
  unfold mention?
  cases hn : p.tree.node node with
  | error f => rfl
  | ok n =>
    dsimp only
    cases hkind : n.kind with
    | ident text =>
      have hfree := hextra n text hn hkind
      dsimp only
      simp only [List.mem_append, hfree, or_false]
    | _ => rfl

/-- Imports at whose places none of the nodes is an identifier make no difference to what the nodes
mention. -/
theorem mentionsFrom_append_imports {extra : List (FileId × Span)}
    (hextra : ∀ name ∈ nodes, ∀ n text, p.tree.node name = .ok n → n.kind = .ident text →
      (n.file, n.range.span) ∉ extra) (imports : List (FileId × Span)) :
    p.mentionsFrom k (imports ++ extra) nodes = p.mentionsFrom k imports nodes := by
  induction nodes generalizing imports with
  | nil => rfl
  | cons node rest ih =>
    rw [mentionsFrom_cons, mentionsFrom_cons,
      mention?_append_imports (hextra node List.mem_cons_self), ← List.append_assoc,
      ih fun name hname => hextra name (List.mem_cons_of_mem _ hname)]

/-- What nodes mention that are read one after the other: the imports of the first are known when
the others are read. -/
theorem mentionsFrom_append (imports : List (FileId × Span)) (nodes nodes' : List NodeId) :
    p.mentionsFrom k imports (nodes ++ nodes') = p.mentionsFrom k imports nodes ++
      p.mentionsFrom k (((p.mentionsFrom k imports nodes).filterMap Mention.importPlace?).reverse ++
        imports) nodes' := by
  have hplace : ∀ m? : Option Mention, (m?.toList.filterMap Mention.importPlace?).reverse =
      (m?.bind Mention.importPlace?).toList := by
    rintro (_ | m)
    · rfl
    · cases h : m.importPlace? <;> simp [h]
  induction nodes generalizing imports with
  | nil => rfl
  | cons node rest ih =>
    rw [List.cons_append, mentionsFrom_cons, mentionsFrom_cons, ih, List.append_assoc,
      List.filterMap_append, List.reverse_append, hplace, List.append_assoc]

/-- Blocks of nodes that are apart mention what each of them does. -/
theorem mentions_flatten {blocks : List (List NodeId)}
    (h : blocks.Pairwise fun a b => p.Apart k b a) :
    p.mentions k blocks.flatten = blocks.flatMap (p.mentions k) := by
  -- the imports of the blocks before are known, but stand nowhere where they matter
  have hknown : ∀ extra : List (FileId × Span),
      (∀ block ∈ blocks, ∀ name ∈ block, ∀ n text, p.tree.node name = .ok n →
        n.kind = .ident text → (n.file, n.range.span) ∉ extra) →
      p.mentionsFrom k extra blocks.flatten = blocks.flatMap (p.mentions k) := by
    induction h with
    | nil => exact fun _ _ => rfl
    | @cons block rest hblock _ ih =>
      intro extra hextra
      have hfirst : p.mentionsFrom k extra block = p.mentions k block :=
        mentionsFrom_append_imports (hextra block List.mem_cons_self) []
      rw [List.flatten_cons, List.flatMap_cons, mentionsFrom_append, hfirst]
      refine congrArg _ (ih _ fun other hother name hname n text hn hkind hmem => ?_)
      rcases List.mem_append.mp hmem with hplace | hmem
      · obtain ⟨m, hm, hplace⟩ := List.mem_filterMap.mp (List.mem_reverse.mp hplace)
        obtain ⟨node, hnode, before, hmention⟩ := exists_mention?_of_mem hm
        exact hblock other hother name hname n text hn hkind
          (importsAt_of_importPlace? hnode hmention hplace)
      · exact hextra other (List.mem_cons_of_mem _ hother) name hname n text hn hkind hmem
  exact hknown [] fun _ _ _ _ _ _ _ _ => List.not_mem_nil

/-- Files that are apart mention the same in another order, and the same nodes are read. -/
theorem perm_mentions {files : List NodeId} (hfiles : files.Perm k.files) (hapart : p.FilesApart k)
    (h : p.tree.Reads k.files nodes) (h' : p.tree.Reads files nodes') :
    nodes.Perm nodes' ∧ (p.mentions k nodes).Perm (p.mentions k nodes') := by
  obtain ⟨blocks, rfl, hblocks⟩ := h.exists_blocks
  obtain ⟨blocks', hblocks', hperm⟩ := List.perm_comp_forall₂ hfiles hblocks
  obtain rfl := h'.unique (.of_blocks hblocks')
  have hpairs := hapart blocks hblocks
  have hpairs' := (hperm.symm.pairwise_iff fun h => h.symm).mp hpairs
  rw [mentions_flatten (hpairs.imp And.right), mentions_flatten (hpairs'.imp And.right)]
  exact ⟨hperm.symm.flatten, hperm.symm.flatMap_right _⟩

/-- What nodes mention depends on a package by its facts alone. -/
theorem mentionsFrom_withFiles (files : List NodeId) (imports : List (FileId × Span))
    (nodes : List NodeId) :
    p.mentionsFrom { k with files := files } imports nodes = p.mentionsFrom k imports nodes := by
  induction nodes generalizing imports with
  | nil => rfl
  | cons node rest ih =>
    rw [mentionsFrom_cons, mentionsFrom_cons, ih]
    rfl

/-- The names that a field's key may bear do not depend on the order in which nodes are read. -/
theorem OwnerName.of_subset {files : List NodeId} {obj : ObjectId} {owner? : Option String}
    (h : p.OwnerName { k with files := files } nodes' obj owner?)
    (hfiles : ∀ file ∈ files, file ∈ k.files) (hnodes : ∀ node ∈ nodes', node ∈ nodes) :
    p.OwnerName k nodes obj owner? := by
  rcases h with ⟨type, ⟨node, hnode, hselects⟩, htype⟩ | ⟨hnone, hbare⟩
  · exact .inl ⟨type, ⟨node, hnodes node hnode, hselects⟩, htype⟩
  · refine .inr ⟨hnone, ?_⟩
    cases hbare with
    | declared hobj => exact .declared hobj
    | imported hobj => exact .imported hobj
    | file hfile hobj => exact .file (hfiles _ hfile) hobj
    | below habove hn hbelow hobj hselects =>
      exact .below (hnodes _ habove) hn hbelow hobj hselects

/-- What is known as the key of an object is the same, except that the key of a field of another
package may bear another one of its owners' names. -/
def SameKey (p : Program) (k : CheckedPackage) (nodes : List NodeId) (obj : ObjectId)
    (key? key?' : Option DefKey) : Prop :=
  key? = key?' ∨ ∃ key key' owner? owner?', key? = some key ∧ key?' = some key' ∧
    p.OwnerName k nodes obj owner? ∧ p.OwnerName k nodes obj owner?' ∧
    p.FieldKey k obj owner? key ∧ p.FieldKey k obj owner?' key'

/-- Two references are the same, except that the key of a field of another package may bear
another one of its owners' names. -/
def SameRef (p : Program) (k : CheckedPackage) (nodes : List NodeId) (r r' : Ref) : Prop :=
  r = r' ∨ ∃ obj owner? owner?', p.OwnerName k nodes obj owner? ∧
    p.OwnerName k nodes obj owner?' ∧ p.FieldKey k obj owner? r.target ∧
    p.FieldKey k obj owner?' r'.target ∧ { r with target := r'.target } = r'

/-- If fields of other packages have one owner's name each, the references are the same. -/
theorem SameRef.eq {r r' : Ref} (h : p.SameRef k nodes r r')
    (hunique : ∀ obj owner? owner?', p.IsForeignField k obj → p.OwnerName k nodes obj owner? →
      p.OwnerName k nodes obj owner?' → owner? = owner?') : r = r' := by
  rcases h with rfl | ⟨obj, owner?, owner?', howner, howner', hfield, hfield', hrest⟩
  · rfl
  · obtain rfl := hunique obj owner? owner?' hfield.isForeignField howner howner'
    rw [← hrest, ← hfield.unique hfield']

end Program

/-! ## Keys of what is mentioned -/

section Keys

variable {c c' : GraphContext} {p : Program} {k : CheckedPackage} {labels : Labelling}
  {owner owner' : Package} {files nodes nodes' : List NodeId} {obj : ObjectId}

/-- The context in which a package is graphed depends on its files by the package alone. -/
theorem GraphContext.Of.eq_withFiles (h : c.Of p k labels owner)
    (h' : c'.Of p { k with files := files } labels owner') :
    c' = { c with package := { k with files := files } } := by
  obtain ⟨hprogram, hpackage, howned, hunit, hplacement, hplaces⟩ := h
  obtain ⟨hprogram', hpackage', howned', hunit', hplacement', hplaces'⟩ := h'
  have howner : owner = owner' := Except.ok.inj (howned.symm.trans howned')
  have hsame : c.placement = c'.placement := Except.ok.inj (hplacement.symm.trans hplacement')
  rw [← hsame, hplaces] at hplaces'
  obtain ⟨_, _, _, _, _⟩ := c
  obtain ⟨_, _, _, _, _⟩ := c'
  dsimp only at *
  rw [hprogram', ← hprogram, hpackage', hunit', ← howner, ← hunit, ← hsame,
    ← Except.ok.inj hplaces']

/-- What is known of an object that has been looked up, other than a field of another package, is
the key that it has at any time. -/
theorem objectKey?_eq_find? {known : KeyStore} (hfound : c.Found .empty known)
    (hlooked : c.LookedUp known obj) (h : ¬ c.program.IsForeignField c.package obj)
    (selected : Selected) : c.objectKey? selected obj = .ok (known.find? c.package.pkg obj) := by
  cases hk : known.find? c.package.pkg obj with
  | some k =>
    rcases hfound obj k hk with hempty | ⟨found, hkey⟩
    · rw [find?_empty] at hempty
      cases hempty
    · rw [GraphContext.objectKey?_eq_of_not_foreign h selected found, hkey]
  | none =>
    rcases hlooked with hsome | ⟨found, hnone⟩
    · unfold KeyStore.keyOf? at hsome
      rw [hk] at hsome
      cases hsome
    · exact GraphContext.objectKey?_none_of_none hnone selected

/-- The known key of a field of another package that has been looked up bears a name that it may
bear. -/
theorem exists_fieldKey {s : Emission} (hselecting : c.Selecting nodes nodes s)
    (hlooked : c.LookedUp s.keys obj) (h : c.program.IsForeignField c.package obj) :
    ∃ key owner?, s.keys.keyOf? c.package.pkg obj = some key ∧
      c.program.OwnerName c.package nodes obj owner? ∧
      c.program.FieldKey c.package obj owner? key := by
  rcases hlooked with hsome | ⟨selected, hnone⟩
  · obtain ⟨key, hkey⟩ := Option.isSome_iff_exists.mp hsome
    obtain ⟨found, hk, rfl⟩ := Option.map_eq_some_iff.mp hkey
    obtain ⟨owner?, howner, hfield⟩ := hselecting.keys obj h found hk
    exact ⟨found.key, owner?, hkey, howner, hfield⟩
  · exact absurd hnone (GraphContext.objectKey?_ne_none_of_foreign h)

/-- An object that has been looked up in two runs, which read the same nodes, has the same key in
both, but for the names of owners. -/
theorem sameKey_of_lookedUp {s s' : Emission} (hfound : c.Found .empty s.keys)
    (hfound' : GraphContext.Found { c with package := { c.package with files := files } } .empty
      s'.keys) (hselecting : c.Selecting nodes nodes s)
    (hselecting' : GraphContext.Selecting { c with package := { c.package with files := files } }
      nodes' nodes' s') (hlooked : c.LookedUp s.keys obj)
    (hlooked' : GraphContext.LookedUp { c with package := { c.package with files := files } }
      s'.keys obj) (hfiles : ∀ file ∈ files, file ∈ c.package.files)
    (hnodes : ∀ node ∈ nodes', node ∈ nodes) :
    c.program.SameKey c.package nodes obj (s.keys.keyOf? c.package.pkg obj)
      (s'.keys.keyOf? c.package.pkg obj) := by
  by_cases hforeign : c.program.IsForeignField c.package obj
  · obtain ⟨key, owner?, hkey, howner, hfield⟩ := exists_fieldKey hselecting hlooked hforeign
    obtain ⟨key', owner?', hkey', howner', hfield'⟩ :=
      exists_fieldKey hselecting' hlooked' hforeign
    exact .inr ⟨key, key', owner?, owner?', hkey, hkey', howner,
      howner'.of_subset hfiles hnodes, hfield, hfield'⟩
  · have hkey := objectKey?_eq_find? hfound hlooked hforeign .empty
    have hkey' := objectKey?_eq_find? hfound' hlooked' hforeign .empty
    refine .inl ?_
    unfold KeyStore.keyOf?
    rw [Except.ok.inj (hkey.symm.trans hkey')]

end Keys

/-! ## References -/

section Refs

variable {p : Program} {k : CheckedPackage} {options : GraphOptions} {keys keys' : KeyStore}
  {g g' : PackageGraph} {files nodes : List NodeId}

/-- The references that a mention makes in two runs are the same, up to the names of owners, if the
keys of what it mentions are. -/
theorem Mention.rel_ref? {m : Mention} {unit : String} {keyOf keyOf' : ObjectId → Option DefKey}
    (h : ∀ obj, m.named.object? = some obj → p.SameKey k nodes obj (keyOf obj) (keyOf' obj)) :
    Option.Rel (p.SameRef k nodes) (m.ref? p unit keyOf) (m.ref? p unit keyOf') := by
  have hsame : m.named.key? unit keyOf = m.named.key? unit keyOf' →
      Option.Rel (p.SameRef k nodes) (m.ref? p unit keyOf) (m.ref? p unit keyOf') := by
    intro heq
    unfold Mention.ref?
    rw [heq]
    cases m.named.key? unit keyOf' with
    | none => exact .none
    | some key => exact .some (.inl rfl)
  cases hobj : m.named.object? with
  | none =>
    cases hnamed : m.named with
    | package => exact hsame (by rw [hnamed]; rfl)
    | imported other => rw [hnamed] at hobj; cases hobj
    | object other isDef => rw [hnamed] at hobj; cases hobj
  | some obj =>
    have hkey := Named.key?_of_object? hobj unit keyOf
    have hkey' := Named.key?_of_object? hobj unit keyOf'
    rcases h obj hobj with heq | ⟨key, key', owner?, owner?', hsome, hsome', hrest⟩
    · exact hsame (by rw [hkey, hkey', heq])
    · unfold Mention.ref?
      rw [hkey, hkey', hsome, hsome']
      obtain ⟨howner, howner', hfield, hfield'⟩ := hrest
      exact .some (.inr ⟨obj, owner?, owner?', howner, howner', hfield, hfield', rfl⟩)

/-- **References to files in another order.** With the files of a package in another order, and
none that has an import without a name where an identifier of another stands, the references are
the same in another order, except that keys of fields of other packages may bear other names of
their owners. They are the same if every such field has only one name of an owner to bear. The
two runs have the same options, so where labels are drawn at random they draw the same numbers. -/
theorem refs_of_perm_files (hfiles : files.Perm k.files)
    (h : p.graph k options .empty = (.ok (.ok g), keys))
    (h' : p.graph { k with files := files } options .empty = (.ok (.ok g'), keys'))
    (hreads : p.tree.Reads k.files nodes) (hapart : p.FilesApart k) :
    (∃ refs, refs.Perm g'.refs ∧ List.Forall₂ (p.SameRef k nodes) g.refs refs) ∧
      ((∀ obj owner? owner?', p.IsForeignField k obj → p.OwnerName k nodes obj owner? →
        p.OwnerName k nodes obj owner?' → owner? = owner?') → g.refs.Perm g'.refs) := by
  obtain ⟨c, owner, packaged, visited, last, hc, hrun, rfl, -⟩ := completes_of_graph_eq_ok h
  obtain ⟨c', owner', packaged', visited', last', hc', hrun', rfl, -⟩ :=
    completes_of_graph_eq_ok h'
  obtain rfl := hc.eq_withFiles hc'
  obtain ⟨hprogram, hpackage, -, -, -, -⟩ := hc
  subst hprogram hpackage
  have hreads' := reads_graphWalk hrun'.uncut
  obtain ⟨hnodes, hmentions⟩ := Program.perm_mentions hfiles hapart hreads hreads'
  have hselecting := hrun.selecting hreads
  have hselecting' := hrun'.selecting hreads'
  have htells := hrun.stages.tells_of_partOf hrun.faultless (PartOf.refl _ _)
    hrun.stages.found_visited
  rw [(reads_graphWalk hrun.uncut).unique hreads] at htells
  have htells' := hrun'.stages.tells_of_partOf hrun'.faultless (PartOf.refl _ _)
    hrun'.stages.found_visited
  dsimp only [Program.mentions] at htells'
  rw [Program.mentionsFrom_withFiles] at htells'
  have hsame : List.Forall₂ (c.program.SameRef c.package nodes) last.graph.refs
      ((c.program.mentions c.package nodes).filterMap
        (·.ref? c.program c.unit (visited'.keys.keyOf? c.package.pkg))) := by
    rw [htells.refs]
    refine List.rel_filterMap (R := fun m m' => m = m' ∧ m ∈ c.program.mentions c.package nodes)
      ?_ (List.forall₂_same.mpr fun m hm => ⟨rfl, hm⟩)
    rintro m _ ⟨rfl, hm⟩
    refine Mention.rel_ref? fun obj hobj => ?_
    have hlooked := htells.lookedUp m hm obj hobj
    have hlooked' := htells'.lookedUp m (hmentions.mem_iff.mp hm) obj hobj
    exact sameKey_of_lookedUp hrun.stages.found_visited hrun'.stages.found_visited hselecting
      hselecting' hlooked hlooked' (fun _ => hfiles.mem_iff.mp) (fun _ => hnodes.mem_iff.mpr)
  have hperm : ((c.program.mentions c.package nodes).filterMap
      (·.ref? c.program c.unit (visited'.keys.keyOf? c.package.pkg))).Perm last'.graph.refs := by
    rw [htells'.refs]
    exact hmentions.filterMap _
  refine ⟨⟨_, hperm, hsame⟩, fun hunique => ?_⟩
  have heq := hsame.imp fun _ _ href => href.eq hunique
  rw [List.forall₂_eq_eq_eq] at heq
  rw [heq]
  exact hperm

end Refs

/-! ### A field that is named in a literal and in selectors -/

namespace FirstUse

/-- A file that declares a variable, `var … = q.V.F`: the nodes from a number on, the last of which
is the file. -/
def selecting (first file : Nat) (name : String) : List Node :=
  [⟨.ident "p", ⟨file⟩, .upTo 1, some ⟨first + 9⟩⟩,
    ⟨.ident name, ⟨file⟩, .upTo 2, some ⟨first + 7⟩⟩,
    ⟨.ident "q", ⟨file⟩, .upTo 3, some ⟨first + 4⟩⟩,
    ⟨.ident "V", ⟨file⟩, .upTo 4, some ⟨first + 4⟩⟩,
    ⟨.selectorExpr ⟨first + 2⟩ ⟨first + 3⟩, ⟨file⟩, .upTo 5, some ⟨first + 6⟩⟩,
    ⟨.ident "F", ⟨file⟩, .upTo 6, some ⟨first + 6⟩⟩,
    ⟨.selectorExpr ⟨first + 4⟩ ⟨first + 5⟩, ⟨file⟩, .upTo 7, some ⟨first + 7⟩⟩,
    ⟨.valueSpec [⟨first + 1⟩] none [⟨first + 6⟩] none none, ⟨file⟩, .upTo 8, some ⟨first + 8⟩⟩,
    ⟨.genDecl .varDecl [⟨first + 7⟩] none, ⟨file⟩, .upTo 9, some ⟨first + 9⟩⟩,
    ⟨.file ⟨first⟩ [⟨first + 8⟩] none [], ⟨file⟩, .upTo 9, none⟩]

/-- A file that declares `var u = q.T{F: 1}`, whose last node is the file. -/
def literal : List Node :=
  [⟨.ident "p", ⟨0⟩, .upTo 1, some ⟨11⟩⟩, ⟨.ident "u", ⟨0⟩, .upTo 2, some ⟨9⟩⟩,
    ⟨.ident "q", ⟨0⟩, .upTo 3, some ⟨4⟩⟩, ⟨.ident "T", ⟨0⟩, .upTo 4, some ⟨4⟩⟩,
    ⟨.selectorExpr ⟨2⟩ ⟨3⟩, ⟨0⟩, .upTo 5, some ⟨8⟩⟩, ⟨.ident "F", ⟨0⟩, .upTo 6, some ⟨7⟩⟩,
    ⟨.basicLit "1", ⟨0⟩, .upTo 7, some ⟨7⟩⟩,
    ⟨.other "KeyValueExpr" [⟨5⟩, ⟨6⟩], ⟨0⟩, .upTo 8, some ⟨8⟩⟩,
    ⟨.compositeLit (some ⟨4⟩) [⟨7⟩], ⟨0⟩, .upTo 9, some ⟨9⟩⟩,
    ⟨.valueSpec [⟨1⟩] none [⟨8⟩] none none, ⟨0⟩, .upTo 10, some ⟨10⟩⟩,
    ⟨.genDecl .varDecl [⟨9⟩] none, ⟨0⟩, .upTo 11, some ⟨11⟩⟩,
    ⟨.file ⟨0⟩ [⟨10⟩] none [], ⟨0⟩, .upTo 11, none⟩]

/-- Three files of `p`: one with a literal of the type `T` of the package `q`, which names the field
`F`, and two that select `F` from the variable `V` of that type. -/
def program : Program where
  sources := ⟨#[⟨"a.go", ""⟩, ⟨"b.go", ""⟩, ⟨"c.go", ""⟩]⟩
  tree := ⟨(literal ++ selecting 12 1 "w" ++ selecting 22 2 "x").toArray⟩
  objects := #[⟨"u", .var, some ⟨0⟩, some ⟨0⟩, none, some ⟨0⟩⟩,
    ⟨"w", .var, some ⟨0⟩, some ⟨0⟩, none, none⟩, ⟨"x", .var, some ⟨0⟩, some ⟨0⟩, none, none⟩,
    ⟨"F", .field false, some ⟨1⟩, none, none, none⟩,
    ⟨"T", .typeName, some ⟨1⟩, some ⟨4⟩, none, some ⟨0⟩⟩,
    ⟨"V", .var, some ⟨1⟩, some ⟨4⟩, none, some ⟨0⟩⟩]
  types := #[.named ⟨4⟩ (some ⟨1⟩) [], .struct [⟨3⟩]]
  scopes := #[⟨none, [⟨1⟩, ⟨2⟩, ⟨3⟩], [("u", ⟨0⟩), ("w", ⟨1⟩), ("x", ⟨2⟩)]⟩, ⟨some ⟨0⟩, [], []⟩,
    ⟨some ⟨0⟩, [], []⟩, ⟨some ⟨0⟩, [], []⟩, ⟨none, [], [("T", ⟨4⟩), ("V", ⟨5⟩)]⟩]
  packages := #[⟨"p", "p", ⟨0⟩⟩, ⟨"q", "q", ⟨4⟩⟩]

/-- The package with some of its files. -/
def package (files : List NodeId) : CheckedPackage where
  pkg := ⟨0⟩
  files := files
  facts := { Facts.empty with
    defs := ⟨[(⟨1⟩, ⟨0⟩), (⟨13⟩, ⟨1⟩), (⟨23⟩, ⟨2⟩)]⟩
    uses := ⟨[(⟨3⟩, ⟨4⟩), (⟨5⟩, ⟨3⟩), (⟨15⟩, ⟨5⟩), (⟨17⟩, ⟨3⟩), (⟨25⟩, ⟨5⟩), (⟨27⟩, ⟨3⟩)]⟩
    selections := ⟨[(⟨18⟩, ⟨.fieldVal, ⟨0⟩, ⟨3⟩, [0], false⟩),
      (⟨28⟩, ⟨.fieldVal, ⟨0⟩, ⟨3⟩, [0], false⟩)]⟩
    scopes := ⟨[(⟨11⟩, ⟨1⟩), (⟨21⟩, ⟨2⟩), (⟨31⟩, ⟨3⟩)]⟩ }

/-- No documentation. -/
def options : GraphOptions := ⟨false, .deterministic⟩

/-- The keys that the references of the package have, if it is graphed. -/
def targets? (files : List NodeId) : Option (List DefKey) :=
  (program.graph (package files) options .empty).1.graph?.map fun g => g.refs.map Ref.target

/-- No file has an import without a name. -/
theorem filesApart (files : List NodeId) : program.FilesApart (package files) := by
  have hnone : ∀ nodes nodes', program.Apart (package files) nodes nodes' := by
    rintro _ _ _ _ _ _ _ _ ⟨_, _, _, _, _, _, _, _, _, himplicit, -⟩
    cases himplicit
  exact fun blocks _ => List.pairwise_of_forall fun a b => ⟨hnone a b, hnone b a⟩

/-- The nodes of the files that select, in the order in which they are read. -/
def nodes : List NodeId :=
  [⟨21⟩, ⟨12⟩, ⟨20⟩, ⟨19⟩, ⟨13⟩, ⟨18⟩, ⟨16⟩, ⟨14⟩, ⟨15⟩, ⟨17⟩, ⟨31⟩, ⟨22⟩, ⟨30⟩, ⟨29⟩, ⟨23⟩, ⟨28⟩,
    ⟨26⟩, ⟨24⟩, ⟨25⟩, ⟨27⟩]

/-- The two files that select are read in this order. -/
theorem reads : program.tree.Reads (package [⟨21⟩, ⟨31⟩]).files nodes := reads_graphWalk rfl

/-- The only field of another package is `F`. -/
theorem eq_of_isForeignField {files : List NodeId} {obj : ObjectId}
    (h : program.IsForeignField (package files) obj) : obj = ⟨3⟩ := by
  obtain ⟨o, embedded, pkg, ho, hkind, -, -⟩ := h
  have hfields : ∀ i < 6, ∀ embedded,
      (program.objects[i]?.map Object.kind) = some (.field embedded) → i = 3 := by decide
  have hget := fetch_eq_ok_iff.mp ho
  obtain ⟨hlt, -⟩ := Array.getElem?_eq_some_iff.mp hget
  have hindex := hfields obj.index hlt embedded (by rw [hget, ← hkind]; rfl)
  obtain ⟨index⟩ := obj
  exact congrArg ObjectId.mk hindex

/-- Only selectors name the field `F` in these files, and they take it from the type `T`. -/
theorem ownerName_unique {obj : ObjectId} {owner? : Option String}
    (h : program.OwnerName (package [⟨21⟩, ⟨31⟩]) nodes obj owner?)
    (hforeign : program.IsForeignField (package [⟨21⟩, ⟨31⟩]) obj) : owner? = some "T" := by
  obtain rfl := eq_of_isForeignField hforeign
  rcases h with ⟨type, ⟨node, -, _, _, selection, -, hselection, -, htype⟩, hname⟩ | ⟨-, hbare⟩
  · have hmem := Table.mem_of_get? hselection
    rcases List.mem_cons.mp hmem with heq | hmem
    · cases heq
      cases htype
      exact (Except.ok.inj hname).symm
    · cases List.mem_singleton.mp hmem
      cases htype
      exact (Except.ok.inj hname).symm
  · exfalso
    cases hbare with
    | declared hobj =>
      have hmem : (⟨3⟩ : ObjectId) ∈
          (package [⟨21⟩, ⟨31⟩]).facts.defs.entries.map Prod.snd :=
        List.mem_map.mpr ⟨_, Table.mem_of_get? hobj, rfl⟩
      exact absurd hmem (by decide)
    | imported hobj => cases hobj
    | @file name hfile hobj =>
      have hfiles : ∀ name ∈ (package [⟨21⟩, ⟨31⟩]).files,
          (package [⟨21⟩, ⟨31⟩]).facts.objectOf? name ≠ some ⟨3⟩ := by decide
      exact hfiles name hfile hobj
    | @below above name n habove hn hbelow hobj hselected =>
      have hselectors : ∀ above ∈ nodes, ∀ name ∈ (match program.tree.node above with
          | .ok n => n.kind.readBelow
          | .error _ => []), (package [⟨21⟩, ⟨31⟩]).facts.objectOf? name = some ⟨3⟩ →
          above = ⟨18⟩ ∨ above = ⟨28⟩ := by decide
      rcases hselectors above habove name (by rw [hn]; exact hbelow) hobj with rfl | rfl
      · exact hselected ⟨_, _, _, rfl, rfl, rfl⟩
      · exact hselected ⟨_, _, _, rfl, rfl, rfl⟩

end FirstUse

/-- The files that select the field can be read in either order. -/
theorem refs_of_perm_files_firstUse : ∃ g keys g' keys',
    FirstUse.program.graph (FirstUse.package [⟨21⟩, ⟨31⟩]) FirstUse.options .empty =
      (.ok (.ok g), keys) ∧
    FirstUse.program.graph (FirstUse.package [⟨31⟩, ⟨21⟩]) FirstUse.options .empty =
      (.ok (.ok g'), keys') ∧
    ([⟨31⟩, ⟨21⟩] : List NodeId).Perm (FirstUse.package [⟨21⟩, ⟨31⟩]).files ∧
    FirstUse.program.tree.Reads (FirstUse.package [⟨21⟩, ⟨31⟩]).files FirstUse.nodes ∧
    FirstUse.program.FilesApart (FirstUse.package [⟨21⟩, ⟨31⟩]) ∧
    ⟨"q", ["T", "F"]⟩ ∈ g.refs.map Ref.target ∧ g.refs.Perm g'.refs := by
  obtain ⟨g, keys, hgraph, htargets⟩ := exists_graph_eq_of_graph?
    (show FirstUse.targets? [⟨21⟩, ⟨31⟩] = some [⟨"p", []⟩, ⟨"p", ["w"]⟩, ⟨"q", ["V"]⟩,
      ⟨"q", ["T", "F"]⟩, ⟨"p", []⟩, ⟨"p", ["x"]⟩, ⟨"q", ["V"]⟩, ⟨"q", ["T", "F"]⟩] by
        decide +kernel)
  obtain ⟨g', keys', hgraph', -⟩ := exists_graph_eq_of_graph?
    (show FirstUse.targets? [⟨31⟩, ⟨21⟩] = some [⟨"p", []⟩, ⟨"p", ["x"]⟩, ⟨"q", ["V"]⟩,
      ⟨"q", ["T", "F"]⟩, ⟨"p", []⟩, ⟨"p", ["w"]⟩, ⟨"q", ["V"]⟩, ⟨"q", ["T", "F"]⟩] by
        decide +kernel)
  have hperm : ([⟨31⟩, ⟨21⟩] : List NodeId).Perm (FirstUse.package [⟨21⟩, ⟨31⟩]).files :=
    .swap _ _ _
  refine ⟨g, keys, g', keys', hgraph, hgraph', hperm, FirstUse.reads, FirstUse.filesApart _, ?_,
    ?_⟩
  · rw [htargets]
    decide
  · refine (refs_of_perm_files hperm hgraph hgraph' FirstUse.reads (FirstUse.filesApart _)).2
      fun obj owner? owner?' hforeign howner howner' => ?_
    rw [FirstUse.ownerName_unique howner hforeign, FirstUse.ownerName_unique howner' hforeign]

/-- With the file that names the field in a literal, the order of the files decides its key. -/
theorem exists_not_perm_refs : ∃ g keys g' keys',
    FirstUse.program.graph (FirstUse.package [⟨11⟩, ⟨21⟩]) FirstUse.options .empty =
      (.ok (.ok g), keys) ∧
    FirstUse.program.graph (FirstUse.package [⟨21⟩, ⟨11⟩]) FirstUse.options .empty =
      (.ok (.ok g'), keys') ∧
    ([⟨21⟩, ⟨11⟩] : List NodeId).Perm (FirstUse.package [⟨11⟩, ⟨21⟩]).files ∧
    FirstUse.program.FilesApart (FirstUse.package [⟨11⟩, ⟨21⟩]) ∧ ¬ g.refs.Perm g'.refs := by
  obtain ⟨g, keys, hgraph, htargets⟩ := exists_graph_eq_of_graph?
    (show FirstUse.targets? [⟨11⟩, ⟨21⟩] = some [⟨"p", []⟩, ⟨"p", ["u"]⟩, ⟨"q", ["T"]⟩,
      ⟨"q", ["F"]⟩, ⟨"p", []⟩, ⟨"p", ["w"]⟩, ⟨"q", ["V"]⟩, ⟨"q", ["F"]⟩] by decide +kernel)
  obtain ⟨g', keys', hgraph', htargets'⟩ := exists_graph_eq_of_graph?
    (show FirstUse.targets? [⟨21⟩, ⟨11⟩] = some [⟨"p", []⟩, ⟨"p", ["w"]⟩, ⟨"q", ["V"]⟩,
      ⟨"q", ["T", "F"]⟩, ⟨"p", []⟩, ⟨"p", ["u"]⟩, ⟨"q", ["T"]⟩, ⟨"q", ["T", "F"]⟩] by
        decide +kernel)
  refine ⟨g, keys, g', keys', hgraph, hgraph', .swap _ _ _, FirstUse.filesApart _, fun hperm => ?_⟩
  have hmem := (hperm.map Ref.target).mem_iff (a := ⟨"q", ["F"]⟩)
  rw [htargets, htargets'] at hmem
  exact absurd (hmem.mp (by decide)) (by decide)

end SymbolGraph
